import RoutineSync.Text.LetterTable
/-!
Classes of characters, over all of Unicode: blanks, decimal digits, letters with numbers, and the
characters of words.
-/
set_option autoImplicit false

namespace RoutineSync.Text

def isBlank (c : Char) : Bool :=
  let n := c.toNat
  n == 0x20 || (9 ≤ n && n ≤ 13) || n == 0x85 || n == 0xA0 || n == 0x1680
    || (0x2000 ≤ n && n ≤ 0x200A) || n == 0x2028 || n == 0x2029 || n == 0x202F || n == 0x205F
    || n == 0x3000

def isAsciiDigit (c : Char) : Bool := 48 ≤ c.toNat && c.toNat ≤ 57

/-- A decimal digit of any script. -/
def isDigit (c : Char) : Bool :=
  isAsciiDigit c || (c.toNat > 127 && digitZeros.any fun z => z ≤ c.toNat && c.toNat < z + 10)

def isAlphanumeric (c : Char) : Bool :=
  if c.toNat ≤ 127 then c.isAlphanum
  else letterRuns.has c.toNat || isDigit c || numberRuns.has c.toNat

/-- Punctuation that connects, the underscore apart. -/
def connectorRuns : Runs :=
  [(0x203F, 0x2040), (0x2054, 0x2054), (0xFE33, 0xFE34), (0xFE4D, 0xFE4F), (0xFF3F, 0xFF3F)]

/-- A character that continues a word, so that no word starts right after it: a letter, a mark, a
decimal digit, connecting punctuation or one of the two joiners. -/
def isWord (c : Char) : Bool :=
  let n := c.toNat
  if n ≤ 127 then c.isAlphanum || c == '_'
  else letterRuns.has n || markRuns.has n || isDigit c || connectorRuns.has n
    || n == 0x200C || n == 0x200D

theorem isDigit_of_isAsciiDigit {c : Char} (h : isAsciiDigit c = true) : isDigit c = true := by
  simp [isDigit, h]

end RoutineSync.Text
