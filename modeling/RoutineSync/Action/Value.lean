import RoutineSync.Text.Basic
import RoutineSync.Decimal.Shortest
/-!
Parameter values and the text that a call writes for them.
-/
set_option autoImplicit false

namespace RoutineSync

/-- The value of one parameter. A text holds what stands between the quotes, escapes included. -/
inductive Value where
  | float (number : Binary64)
  | int (number : Int64)
  | bool (flag : Bool)
  | text (chars : Text)
deriving DecidableEq

namespace Value

def intText (n : Int) : Text :=
  (if n < 0 then ['-'] else []) ++ Decimal.natText n.natAbs

def source : Value → Text
  | .float x => x.text
  | .int n => intText n.toInt
  | .bool true => "true".toList
  | .bool false => "false".toList
  | .text cs => '"' :: cs ++ ['"']

/-- Whether the characters can stand between quotes: no quote and no newline, and every backslash
has a character other than a newline after it. -/
def quotable : Text → Bool
  | [] => true
  | ['\\'] => false
  | '\\' :: c :: r => c != '\n' && quotable r
  | c :: r => c != '"' && c != '\n' && quotable r

/-- Whether the written form reads back as the value. -/
def isWritable : Value → Bool
  | .float x => x.isFinite
  | .int _ | .bool _ => true
  | .text cs => quotable cs

/-- Comparison by what the values mean: floats compare as numbers. -/
def eqv : Value → Value → Bool
  | .float x, .float y => x.eqv y
  | v, w => v == w

end Value

end RoutineSync
