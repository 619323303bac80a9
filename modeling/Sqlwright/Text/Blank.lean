/-!
White space. The characters of the Unicode property `White_Space` count as blank everywhere in this
library: around names, between the words of an alias, around numbers in text. The table adds to
core's four characters and takes none away.
-/

namespace Sqlwright.Text

/-- The `White_Space` property as closed ranges of code points, ascending and apart. -/
def blankRanges : List (Nat × Nat) :=
  [(0x09, 0x0D), (0x20, 0x20), (0x85, 0x85), (0xA0, 0xA0), (0x1680, 0x1680), (0x2000, 0x200A),
   (0x2028, 0x2029), (0x202F, 0x202F), (0x205F, 0x205F), (0x3000, 0x3000)]

def isBlank (c : Char) : Bool :=
  blankRanges.any fun range => range.1 ≤ c.toNat && c.toNat ≤ range.2

theorem isBlank_of_isWhitespace {c : Char} (white : c.isWhitespace = true) : isBlank c = true := by
  simp [Char.isWhitespace] at white
  rcases white with ((h | h) | h) | h <;> subst h <;> decide

/-- The text without its leading blanks. -/
def trimLeft (s : List Char) : List Char := s.dropWhile isBlank

/-- The text without its trailing blanks. -/
def trimRight (s : List Char) : List Char := (s.reverse.dropWhile isBlank).reverse

/-- The text without surrounding blanks. -/
def trimChars (s : List Char) : List Char := trimRight (trimLeft s)

def trim (s : String) : String := .ofList (trimChars s.toList)

/-- The first maximal run of non-blank characters, empty when there is none. -/
def firstWord (s : List Char) : List Char :=
  (trimLeft s).takeWhile (fun c => !isBlank c)

end Sqlwright.Text
