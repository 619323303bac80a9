/-!
Reading bytes as UTF-8 without failing. Every longest run of bytes that starts a character and does
not finish it becomes one U+FFFD, so every input has a reading and valid input is read unchanged.
-/

namespace Sqlwright.Text

/-- What the bytes of an unfinished character still owe: how many tail bytes, the range of the next
one, and the code point bits read so far. -/
structure Pending where
  owed : Nat
  low : Nat
  high : Nat
  bits : Nat

/-- The bytes that open a character of two or more bytes. -/
def Pending.opened (b : Nat) : Option Pending :=
  if 0xC2 ≤ b ∧ b ≤ 0xDF then some ⟨1, 0x80, 0xBF, b - 0xC0⟩
  else if b = 0xE0 then some ⟨2, 0xA0, 0xBF, 0⟩
  else if b = 0xED then some ⟨2, 0x80, 0x9F, 0xD⟩
  else if 0xE1 ≤ b ∧ b ≤ 0xEF then some ⟨2, 0x80, 0xBF, b - 0xE0⟩
  else if b = 0xF0 then some ⟨3, 0x90, 0xBF, 0⟩
  else if 0xF1 ≤ b ∧ b ≤ 0xF3 then some ⟨3, 0x80, 0xBF, b - 0xF0⟩
  else if b = 0xF4 then some ⟨3, 0x80, 0x8F, 4⟩
  else none

def replacement : Char := Char.ofNat 0xFFFD

/-- A byte between characters: what it yields at once and what it leaves open. -/
def startByte (b : Nat) : List Char × Option Pending :=
  if b < 0x80 then ([Char.ofNat b], none)
  else match Pending.opened b with
    | some pending => ([], some pending)
    | none => ([replacement], none)

/-- One more byte after what is open. A byte that does not continue the open character ends it as
one replacement and is then read from the start. -/
def stepByte : Option Pending → Nat → List Char × Option Pending
  | none, b => startByte b
  | some left, b =>
    if left.low ≤ b ∧ b ≤ left.high then
      let bits := left.bits * 64 + (b - 0x80)
      if left.owed ≤ 1 then ([Char.ofNat bits], none)
      else ([], some ⟨left.owed - 1, 0x80, 0xBF, bits⟩)
    else
      let next := startByte b
      (replacement :: next.1, next.2)

def decodeBytes : Option Pending → List UInt8 → List Char
  | none, [] => []
  | some _, [] => [replacement]
  | pending, b :: rest =>
    let step := stepByte pending b.toNat
    step.1 ++ decodeBytes step.2 rest

/-- The bytes as text, with U+FFFD for what is no character. -/
def ofUtf8 (bytes : List UInt8) : String := .ofList (decodeBytes none bytes)

end Sqlwright.Text
