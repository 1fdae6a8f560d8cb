import RoutineSync.Text.Change
import RoutineSync.Wire.Json
/-!
What values on the wire are read as: numbers, texts and lists, and records by the names of their
fields. A reader gives `none` for a value that does not have its form.
-/
set_option autoImplicit false

namespace RoutineSync.Wire.Json

variable {α : Type}

def bool? : Json → Option Bool
  | .bool b => some b
  | _ => none

def text? : Json → Option Text
  | .text t => some t
  | _ => none

def string? (j : Json) : Option String := j.text?.map String.ofList

def natural? : Json → Option Nat
  | .natural n => if n ≤ maxPlace then some n else none
  | _ => none

def int64? : Json → Option Int64
  | .natural n => if n ≤ Int64.maxValue.toInt then some (Int64.ofNat n) else none
  | .negative n => some (Int64.ofInt n)
  | _ => none

/-- A real number; a whole number is the real number nearest to it. -/
def real? : Json → Option Binary64
  | .natural n => some (.ofInt n)
  | .negative n => some (.ofInt n)
  | .real x => some x
  | _ => none

def list? (item? : Json → Option α) : Json → Option (List α)
  | .array items => items.mapM item?
  | _ => none

def nullable? (value? : Json → Option α) : Json → Option (Option α)
  | .null => some none
  | j => (value? j).map some

def single? : Json → Option (String × Json)
  | .object [f] => some f
  | _ => none

def ofInt64 (n : Int64) : Json :=
  if n.toInt < 0 then .negative n.toInt else .natural n.toInt.toNat

/-- A number that is not finite has no form of its own. -/
def ofReal (x : Binary64) : Json := if x.isFinite then .real x else .null

def ofString (s : String) : Json := .text s.toList

def ofList (item : α → Json) (xs : List α) : Json := .array (xs.map item)

def ofNullable (value : α → Json) : Option α → Json
  | some a => value a
  | none => .null

abbrev Record := List (String × Json)

/-- Whether no expected field stands twice. -/
def Record.isClear (r : Record) (names : List String) : Bool :=
  names.all fun n => (r.filter fun f => f.1 == n).length ≤ 1

/-- A value as a record of the expected fields: an object, whose other fields are passed over, or an
array of exactly the expected fields in their order. -/
def record? (names : List String) : Json → Option Record
  | .object fields => if Record.isClear fields names then some fields else none
  | .array items => if items.length = names.length then some (names.zip items) else none
  | _ => none

namespace Record

def required? (r : Record) (name : String) (value? : Json → Option α) : Option α :=
  (r.lookup name).bind value?

/-- A field that may be absent or null. -/
def optional? (r : Record) (name : String) (value? : Json → Option α) : Option (Option α) :=
  match r.lookup name with
  | none => some none
  | some j => j.nullable? value?

end Record

/-- One of the names of an enumeration, given as a text or as the only field, which holds nothing. In
a value that is `held`, taken in whole before it is read, an empty object is nothing too. -/
def name? (held : Bool) : Json → Option String
  | .text t => some (String.ofList t)
  | .object [(name, .null)] => some name
  | .object [(name, .object [])] => if held then some name else none
  | _ => none

end RoutineSync.Wire.Json
