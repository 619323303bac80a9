import Sqlwright.Number.Integer
import Sqlwright.Text.Fields

/-!
Native types as catalogs print them: a name, arguments in parentheses, and the words `unsigned` and
`zerofill`. The name ends as early as what follows allows, and the arguments reach as far as they
can. A text that is no such type is a name as a whole.
-/

namespace Sqlwright

structure NativeType where
  /-- The name in upper case. -/
  base : String
  args : List String := []
  unsigned : Bool := false
  deriving DecidableEq, Repr

namespace NativeType

/-- The lower case of an ASCII letter; the long s and the Kelvin sign count as the letters that they
are cases of. -/
def foldLetter (c : Char) : Char :=
  if c.toNat = 0x17F then 's' else if c.toNat = 0x212A then 'k' else c.toLower

/-- Characters that a type name starts with. -/
def startsName (c : Char) : Bool := (foldLetter c).isLower || c = '_'

/-- Characters within a type name. -/
def inName (c : Char) : Bool := startsName c || c.isDigit || c = ' '

/-- What follows a word in either case; none where another text stands. -/
def dropWord? : List Char → List Char → Option (List Char)
  | [], s => some s
  | _ :: _, [] => none
  | w :: word, c :: s => if foldLetter c = w then dropWord? word s else none

/-- Reads the words behind name and arguments and tells whether `unsigned` is there; none where
anything else stands. -/
def suffix? (s : List Char) : Option Bool :=
  let start := Text.trimLeft s
  let afterSign := dropWord? "unsigned".toList start
  let rest := Text.trimLeft (afterSign.getD start)
  let last := (dropWord? "zerofill".toList rest).getD rest
  if (Text.trimLeft last).isEmpty then some afterSign.isSome else none

/-- Reads arguments up to the last closing parenthesis with which a type can end. -/
def arguments? : List Char → Option (List Char × Bool)
  | [] => none
  | c :: rest =>
    match arguments? rest with
    | some (inner, isUnsigned) => some (c :: inner, isUnsigned)
    | none => if c = ')' then (suffix? rest).map fun isUnsigned => ([], isUnsigned) else none

/-- Reads what follows the name: arguments, if there are any, and the words behind them. -/
def remainder? (s : List Char) : Option (List Char × Bool) :=
  match Text.trimLeft s with
  | '(' :: inner => arguments? inner
  | rest => (suffix? rest).map fun isUnsigned => ([], isUnsigned)

/-- Reads the rest of a name, as short as possible, and what follows it. -/
def nameRest? : List Char → Option (List Char × List Char × Bool)
  | [] => (remainder? []).map fun read => ([], read)
  | c :: rest =>
    match remainder? (c :: rest) with
    | some read => some ([], read)
    | none => if inName c then (nameRest? rest).map fun read => (c :: read.1, read.2) else none

/-- Reads a quoted argument behind its opening quote; a quote inside is doubled. An argument that is
never closed ends at its last doubled quote. -/
def quotedRest? : List Char → Option (List Char × List Char)
  | [] => none
  | [c] => if c = '\x27' then some ([], []) else none
  | c :: d :: rest =>
    if c = '\x27' then
      if d = '\x27' then
        match quotedRest? rest with
        | some (arg, after) => some ('\x27' :: arg, after)
        | none => some ([], d :: rest)
      else some ([], d :: rest)
    else (quotedRest? (d :: rest)).map fun read => (c :: read.1, read.2)

theorem length_quotedRest? {s arg after : List Char} (read : quotedRest? s = some (arg, after)) :
    after.length < s.length := by
  fun_induction quotedRest? s generalizing arg after with
  | case1 => simp at read
  | case2 => simp_all
  | case3 => simp_all
  | case4 rest arg' after' found ih =>
    have := ih found
    simp only [Option.some.injEq, Prod.mk.injEq] at read
    simp only [List.length_cons, ← read.2]
    omega
  | case5 => simp only [Option.some.injEq, Prod.mk.injEq] at read; simp [← read.2]
  | case6 => simp only [Option.some.injEq, Prod.mk.injEq] at read; simp [← read.2]
  | case7 c d rest apart ih =>
    obtain ⟨inner, found, same⟩ := Option.map_eq_some_iff.1 read
    have := @ih inner.1 inner.2 found
    simp only [Prod.mk.injEq] at same
    simp only [List.length_cons, ← same.2] at this ⊢
    omega

/-- The quoted arguments in a text, whatever stands between them. -/
def quotedArgs : List Char → List String
  | [] => []
  | c :: rest =>
    if c = '\x27' then
      match found : quotedRest? rest with
      | some (arg, after) =>
        have : after.length < rest.length := length_quotedRest? found
        .ofList arg :: quotedArgs after
      | none => []
    else quotedArgs rest
termination_by s => s.length
decreasing_by
  · exact Nat.lt_succ_of_lt this
  · exact Nat.lt_succ_self _

/-- The arguments in a text: quoted ones where there is a quote, else a comma separated list. -/
def argsOf (inner : List Char) : List String :=
  if inner.contains '\x27' then quotedArgs inner else Text.commaList (.ofList inner)

def parse (text : String) : NativeType :=
  match Text.trimLeft text.toList with
  | c :: rest =>
    match (if startsName c then nameRest? rest else none) with
    | some (name, inner, isUnsigned) =>
      { base := (String.ofList (c :: name)).toUpper, args := argsOf inner, unsigned := isUnsigned }
    | none => { base := (Text.trim text).toUpper }
  | [] => { base := "" }

/-- An argument that is a number. -/
def arg? (t : NativeType) (i : Nat) : Option Nat :=
  t.args[i]?.bind fun a => Number.readUpTo? Number.maxCount a.toList

end NativeType

end Sqlwright
