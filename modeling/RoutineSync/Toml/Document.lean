import RoutineSync.Toml.Quoted
import RoutineSync.Toml.Scalar
/-!
Documents of keys and values in tables. A key is given once; a table may be extended only in the way
in which it was made.
-/
set_option autoImplicit false

namespace RoutineSync.Toml

inductive TableKind where
  /-- By the header of a table inside it. -/
  | implied
  | headed
  /-- By a key with dots. -/
  | dotted
  | inline
deriving DecidableEq

inductive Value where
  | text (t : Text)
  /-- A truth value, a number, a date or a time. -/
  | scalar
  | array (items : List Value)
  | table (kind : TableKind) (entries : List (String × Value))
  /-- Tables with one header each; the newest comes first. -/
  | tables (elements : List (List (String × Value)))

abbrev Entries := List (String × Value)

def Entries.set (key : String) (v : Value) : Entries → Entries
  | [] => [(key, v)]
  | (k, w) :: r => if k = key then (k, v) :: r else (k, w) :: Entries.set key v r

abbrev Update := TableKind → Entries → Option Entries

/-- Changes the table that a path of keys leads to. Missing tables are made on the way; `byDots`
tells whether the path belongs to a key with dots or to a header. -/
def descend (byDots : Bool) : List String → Update → Update
  | [], update, kind, entries => update kind entries
  | key :: path, update, _, entries =>
    match entries.lookup key with
    | none => do
      let kind := if byDots then .dotted else .implied
      return Entries.set key (.table kind (← descend byDots path update kind [])) entries
    | some (.table kind inner) =>
      if kind = .inline ∨ (byDots ∧ kind = .headed) then none
      else do return Entries.set key (.table kind (← descend byDots path update kind inner)) entries
    | some (.tables (newest :: older)) => do
      let newest ← descend byDots path update .headed newest
      return Entries.set key (.tables (newest :: older)) entries
    | some _ => none

/-- Gives a value to a key with dots. Its table must have been made by dots, or be the one that the
key stands in if there are none. -/
def assign (path : List String) (key : String) (v : Value) : Update :=
  descend true path fun kind entries =>
    if (kind == .dotted) == path.isEmpty || (entries.lookup key).isSome then none
    else some (Entries.set key v entries)

def openTable (path : List String) (key : String) : Update :=
  descend false path fun _ entries =>
    match entries.lookup key with
    | none => some (Entries.set key (.table .headed []) entries)
    | some (.table .implied inner) => some (Entries.set key (.table .headed inner) entries)
    | some _ => none

/-- Makes one more table of a header in double brackets. -/
def openNext (path : List String) (key : String) : Update :=
  descend false path fun _ entries =>
    match entries.lookup key with
    | none => some (Entries.set key (.tables [[]]) entries)
    | some (.tables elements) => some (Entries.set key (.tables ([] :: elements)) entries)
    | some _ => none

def isBareKey (c : Char) : Bool := c.isAlphanum || c = '-' || c = '_'

def simpleKey? (t : Text) : Option (String × Text) :=
  match quotedLine? t with
  | some (k, r) => some (String.ofList k, r)
  | none =>
    let k := t.takeWhile isBareKey
    if k.isEmpty then none else some (String.ofList k, t.dropWhile isBareKey)

/-- The parts of a key: the one behind its last dot, and those before. Blanks may stand around them.
-/
def keyParts? : Nat → Text → Option (List String × String × Text)
  | 0, _ => none
  | fuel + 1, t => do
    let (k, r) ← simpleKey? (skipBlanks t)
    match skipBlanks r with
    | '.' :: r => do
      let (path, key, r) ← keyParts? fuel r
      return (k :: path, key, r)
    | r => return ([], k, r)

/-- How many arrays and tables in braces may stand one in the other, and how many parts a key may
have. -/
def maxNesting : Nat := 80

def key? (t : Text) : Option (List String × String × Text) :=
  (keyParts? t.length t).filter fun (path, _) => path.length < maxNesting

def skipComment? (t : Text) : Option Text :=
  match t with
  | '#' :: r =>
    match r.dropWhile isPlain with
    | [] => some []
    | r => if (afterNewline? r).isSome then some r else none
  | t => some t

def skipLines? : Nat → Text → Option Text
  | 0, t => some t
  | fuel + 1, t => do
    let r ← skipComment? (skipBlanks t)
    match afterNewline? r with
    | some r => skipLines? fuel r
    | none => return r

def endLine? (t : Text) : Option Text := do
  match ← skipComment? (skipBlanks t) with
  | [] => return []
  | r => afterNewline? r

mutual

/-- A value, in `level` arrays and tables. -/
def value? : Nat → Nat → Text → Option (Value × Text)
  | 0, _, _ => none
  | fuel + 1, level, t =>
    match t with
    | '[' :: r => if level < maxNesting then items? fuel (level + 1) [] r else none
    | '\x7b' :: r => if level < maxNesting then fields? fuel (level + 1) [] r else none
    | t =>
      match t with
      | '"' :: _ | '\'' :: _ => (quoted? t).map fun (s, r) => (.text s, r)
      | _ => (afterScalar? t).map fun r => (.scalar, r)

/-- The items of an array behind those that were read, the newest first. -/
def items? : Nat → Nat → List Value → Text → Option (Value × Text)
  | 0, _, _, _ => none
  | fuel + 1, level, done, t => do
    match ← skipLines? t.length t with
    | ']' :: r => return (.array done.reverse, r)
    | r => do
      let (v, r) ← value? fuel level r
      match ← skipLines? r.length r with
      | ',' :: r => items? fuel level (v :: done) r
      | ']' :: r => return (.array (v :: done).reverse, r)
      | _ => none

/-- The fields of a table in braces behind those that were read. Lines may end around an equals sign.
-/
def fields? : Nat → Nat → Entries → Text → Option (Value × Text)
  | 0, _, _, _ => none
  | fuel + 1, level, entries, t => do
    match ← skipLines? t.length t with
    | '\x7d' :: r => return (.table .inline entries, r)
    | r => do
      let (path, key, r) ← key? r
      match ← skipLines? r.length r with
      | '=' :: r => do
        let (v, r) ← value? fuel level (← skipLines? r.length r)
        let entries ← assign path key v .headed entries
        match ← skipLines? r.length r with
        | ',' :: r => fields? fuel level entries r
        | '\x7d' :: r => return (.table .inline entries, r)
        | _ => none
      | _ => none

end

def header? (t : Text) : Option (Update × List String × Text) :=
  match t with
  | '[' :: '[' :: r => do
    let (path, key, r) ← key? r
    match r with
    | ']' :: ']' :: r => return (openNext path key, path ++ [key], ← endLine? r)
    | _ => none
  | '[' :: r => do
    let (path, key, r) ← key? r
    match r with
    | ']' :: r => return (openTable path key, path ++ [key], ← endLine? r)
    | _ => none
  | _ => none

def assignment? (t : Text) : Option (Update × Text) := do
  let (path, key, r) ← key? t
  match r with
  | '=' :: r => do
    let (v, r) ← value? (2 * r.length + 1) 0 (skipBlanks r)
    return (assign path key v, ← endLine? r)
  | _ => none

/-- Reads the lines of a document into its entries; `current` leads to the table of the latest
header. -/
def read? : Nat → List String → Entries → Text → Option Entries
  | 0, _, _, _ => none
  | fuel + 1, current, entries, t => do
    match ← skipLines? t.length t with
    | [] => return entries
    | '[' :: r => do
      let (update, current, r) ← header? ('[' :: r)
      read? fuel current (← update .headed entries) r
    | r => do
      let (update, r) ← assignment? r
      read? fuel current (← descend false current update .headed entries) r

/-- The entries of a document. A mark of the byte order may stand in front. -/
def document? (t : Text) : Option Entries :=
  read? (t.length + 1) [] [] (if t.head? = some '\ufeff' then t.drop 1 else t)

end RoutineSync.Toml
