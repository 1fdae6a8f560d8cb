import RoutineSync.Text.Hex
import RoutineSync.Wire.Number
/-!
JSON texts as trees. Fields keep their order and may repeat. A value that is well-formed but cannot
be taken in, such as a number too large, a text with half a surrogate pair or a list in too many
others, does no harm where nobody asks for it.
-/
set_option autoImplicit false

namespace RoutineSync.Wire

inductive Json where
  | null
  | bool (b : Bool)
  | natural (n : Nat)
  | negative (n : Int)
  | real (x : Binary64)
  | text (t : Text)
  | array (items : List Json)
  | object (fields : List (String × Json))
  | unreadable

namespace Json

def ofNumber : Number → Json
  | .natural n => .natural n
  | .negative n => .negative n
  | .real x => .real x
  | .unreadable => .unreadable

def isSpace (c : Char) : Bool := c == ' ' || c == '\n' || c == '\t' || c == '\r'

def skipSpace (t : Text) : Text := t.dropWhile isSpace

/-- A unit of an escaped text: a character, or half of a surrogate pair. -/
inductive Unit16 where
  | char (c : Char)
  | high (n : Nat)
  | low (n : Nat)

def Unit16.ofNat (n : Nat) : Unit16 :=
  if 0xD800 ≤ n ∧ n < 0xDC00 then .high n
  else if 0xDC00 ≤ n ∧ n < 0xE000 then .low n
  else .char (Char.ofNat n)

/-- The characters of units, halves of a pair joined; none for a half without its other half. -/
def joinUnits : List Unit16 → Option Text
  | [] => some []
  | .char c :: r => (joinUnits r).map (c :: ·)
  | .high h :: .low l :: r =>
    (joinUnits r).map (Char.ofNat (0x10000 + (h - 0xD800) * 0x400 + (l - 0xDC00)) :: ·)
  | _ => none

def escaped? : Char → Option Char
  | '"' => some '"'
  | '\\' => some '\\'
  | '/' => some '/'
  | 'b' => some '\x08'
  | 'f' => some '\x0c'
  | 'n' => some '\n'
  | 'r' => some '\r'
  | 't' => some '\t'
  | _ => none

def units? : Nat → Text → Option (List Unit16 × Text)
  | 0, _ => none
  | fuel + 1, t =>
    match t with
    | '"' :: r => some ([], r)
    | '\\' :: 'u' :: r => do
      let (n, r) ← Text.leadingHex? 4 r
      let (us, r) ← units? fuel r
      return (.ofNat n :: us, r)
    | '\\' :: c :: r => do
      let c ← escaped? c
      let (us, r) ← units? fuel r
      return (.char c :: us, r)
    | c :: r =>
      if c = '\\' ∨ c.toNat < 0x20 then none
      else (units? fuel r).map fun (us, r) => (.char c :: us, r)
    | [] => none

/-- A text from behind its first quote; `none` inside for one that is well-formed but unreadable. -/
def quoted? (t : Text) : Option (Option Text × Text) :=
  (units? (t.length + 1) t).map fun (us, r) => (joinUnits us, r)

/-- How many lists and objects may stand one in the other. -/
def maxNesting : Nat := 127

def nested (level : Nat) (j : Json) : Json := if level < maxNesting then j else .unreadable

mutual

/-- A value at the start of a text, in `level` lists and objects. -/
def valueAt? : Nat → Nat → Text → Option (Json × Text)
  | 0, _, _ => none
  | fuel + 1, level, t =>
    match skipSpace t with
    | 'n' :: 'u' :: 'l' :: 'l' :: r => some (.null, r)
    | 't' :: 'r' :: 'u' :: 'e' :: r => some (.bool true, r)
    | 'f' :: 'a' :: 'l' :: 's' :: 'e' :: r => some (.bool false, r)
    | '"' :: r => (quoted? r).map fun (s, r) => ((s.map .text).getD .unreadable, r)
    | '[' :: r =>
      match skipSpace r with
      | ']' :: r => some (nested level (.array []), r)
      | r => (itemsAt? fuel (level + 1) r).map fun (items, r) => (nested level (.array items), r)
    | '{' :: r =>
      match skipSpace r with
      | '}' :: r => some (nested level (.object []), r)
      | r =>
        (fieldsAt? fuel (level + 1) r).map fun (fields, r) =>
          (nested level ((fields.map .object).getD .unreadable), r)
    | r => (readNumber? r).map fun (n, r) => (ofNumber n, r)

def itemsAt? : Nat → Nat → Text → Option (List Json × Text)
  | 0, _, _ => none
  | fuel + 1, level, t => do
    let (item, r) ← valueAt? fuel level t
    match skipSpace r with
    | ',' :: r => do
      let (items, r) ← itemsAt? fuel level r
      return (item :: items, r)
    | ']' :: r => return ([item], r)
    | _ => none

/-- The fields of an object through its closing brace; `none` inside where a name is unreadable. -/
def fieldsAt? : Nat → Nat → Text → Option (Option (List (String × Json)) × Text)
  | 0, _, _ => none
  | fuel + 1, level, t => do
    let (name, r) ← match skipSpace t with
      | '"' :: r => quoted? r
      | _ => none
    let r ← match skipSpace r with
      | ':' :: r => some r
      | _ => none
    let (value, r) ← valueAt? fuel level r
    let join (rest : Option (List (String × Json))) : Option (List (String × Json)) := do
      return (String.ofList (← name), value) :: (← rest)
    match skipSpace r with
    | ',' :: r => do
      let (rest, r) ← fieldsAt? fuel level r
      return (join rest, r)
    | '}' :: r => return (join (some []), r)
    | _ => none

end

def ofText? (t : Text) : Option Json := do
  let (j, r) ← valueAt? (2 * t.length + 1) 0 t
  guard (skipSpace r = [])
  return j

mutual

/-- Whether a value can be taken in whole, whatever is asked of it later. -/
def isReadable : Json → Bool
  | .unreadable => false
  | .array items => areReadable items
  | .object fields => haveReadable fields
  | _ => true

def areReadable : List Json → Bool
  | [] => true
  | j :: js => isReadable j && areReadable js

def haveReadable : List (String × Json) → Bool
  | [] => true
  | (_, j) :: fs => isReadable j && haveReadable fs

end

end Json

end RoutineSync.Wire
