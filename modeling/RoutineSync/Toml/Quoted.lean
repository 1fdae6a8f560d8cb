import RoutineSync.Text.Hex
/-!
Quoted texts. Double quotes take escapes, single quotes take every character as it is; three quotes
take several lines.
-/
set_option autoImplicit false

namespace RoutineSync.Toml

def isPlain (c : Char) : Bool := c = '\t' || (' ' ≤ c && c ≠ '\x7f')

def isBlank (c : Char) : Bool := c = ' ' || c = '\t'

def afterNewline? : Text → Option Text
  | '\n' :: r => some r
  | '\r' :: '\n' :: r => some r
  | _ => none

def skipBlanks (t : Text) : Text := t.dropWhile isBlank

/-- The character of a code, which must not be a surrogate. -/
def charOf? (n : Nat) : Option Char := if n.isValidChar then some (Char.ofNat n) else none

def escaped? : Text → Option (Char × Text)
  | 'b' :: r => some ('\x08', r)
  | 't' :: r => some ('\t', r)
  | 'n' :: r => some ('\n', r)
  | 'f' :: r => some ('\x0c', r)
  | 'r' :: r => some ('\r', r)
  | 'e' :: r => some ('\x1b', r)
  | '"' :: r => some ('"', r)
  | '\\' :: r => some ('\\', r)
  | 'x' :: r => do
    let (n, r) ← Text.leadingHex? 2 r
    return (← charOf? n, r)
  | 'u' :: r => do
    let (n, r) ← Text.leadingHex? 4 r
    return (← charOf? n, r)
  | 'U' :: r => do
    let (n, r) ← Text.leadingHex? 8 r
    return (← charOf? n, r)
  | _ => none

def basic? : Nat → Text → Option (Text × Text)
  | 0, _ => none
  | fuel + 1, t =>
    match t with
    | '"' :: r => some ([], r)
    | '\\' :: r => do
      let (c, r) ← escaped? r
      let (cs, r) ← basic? fuel r
      return (c :: cs, r)
    | c :: r => if isPlain c then (basic? fuel r).map fun (cs, r) => (c :: cs, r) else none
    | [] => none

def literal? : Text → Option (Text × Text)
  | '\'' :: r => some ([], r)
  | c :: r => if isPlain c then (literal? r).map fun (cs, r) => (c :: cs, r) else none
  | [] => none

/-- Blanks and line ends, which a backslash at the end of a line takes away. -/
def skipWhite : Nat → Text → Text
  | 0, t => t
  | fuel + 1, t =>
    match afterNewline? (skipBlanks t) with
    | some r => skipWhite fuel r
    | none => skipBlanks t

/-- The end of lines in three quotes: up to two quotes more belong to the text. -/
def closing? (quote : Char) (t : Text) : Option (Text × Text) :=
  let count := (t.takeWhile (· = quote)).length
  if count < 3 then none
  else some (List.replicate (min (count - 3) 2) quote, t.drop (min count 5))

def lines? (quote : Char) : Nat → Text → Option (Text × Text)
  | 0, _ => none
  | fuel + 1, t =>
    match closing? quote t with
    | some ended => some ended
    | none =>
      match t with
      | [] => none
      | '\\' :: r =>
        if quote = '"' then
          if (afterNewline? (skipBlanks r)).isSome then lines? quote fuel (skipWhite r.length r)
          else do
            let (c, r) ← escaped? r
            let (cs, r) ← lines? quote fuel r
            return (c :: cs, r)
        else (lines? quote fuel r).map fun (cs, r) => ('\\' :: cs, r)
      | '\r' :: '\n' :: r => (lines? quote fuel r).map fun (cs, r) => ('\r' :: '\n' :: cs, r)
      | c :: r =>
        if isPlain c || c = '\n' then (lines? quote fuel r).map fun (cs, r) => (c :: cs, r)
        else none

def quotedLine? : Text → Option (Text × Text)
  | '"' :: r => basic? (r.length + 1) r
  | '\'' :: r => literal? r
  | _ => none

/-- A quoted text. A line end right behind three quotes does not belong to it. -/
def quoted? (t : Text) : Option (Text × Text) :=
  let behind (quote : Char) (r : Text) := lines? quote (r.length + 1) ((afterNewline? r).getD r)
  match t with
  | '"' :: '"' :: '"' :: r => behind '"' r
  | '\'' :: '\'' :: '\'' :: r => behind '\'' r
  | t => quotedLine? t

def longestRun (c : Char) (t : Text) : Nat :=
  (t.foldl (fun (now, most) d =>
    let now := if d = c then now + 1 else 0
    (now, max now most)) (0, 0)).2

/-- A character with its escape, if it has one; a line end has one unless lines are allowed. -/
def escape (lines : Bool) (c : Char) : Text :=
  if c = '\x08' then ['\\', 'b']
  else if c = '\t' then ['\\', 't']
  else if c = '\n' then if lines then ['\n'] else ['\\', 'n']
  else if c = '\x0c' then ['\\', 'f']
  else if c = '\r' then ['\\', 'r']
  else if c = '\\' then ['\\', '\\']
  else if isPlain c then [c]
  else '\\' :: 'u' :: (Text.hexText 4 c.toNat).map Char.toUpper

/-- Characters with their escapes; no more than `room` double quotes stand together without one. -/
def escapeAll (lines : Bool) (room : Nat) : Nat → Text → Text
  | _, [] => []
  | run, c :: r =>
    if c = '"' then
      if run < room then '"' :: escapeAll lines room (run + 1) r
      else '\\' :: '"' :: escapeAll lines room 0 r
    else escape lines c ++ escapeAll lines room 0 r

/-- A quoted form of a text: the first that needs no escape but for tabs, of double quotes, single
quotes, and three of either; else one with escapes. -/
def quote (t : Text) : Text :=
  let hasLines := t.contains '\n'
  let hasControls := t.any fun c => !isPlain c && c ≠ '\n'
  let singles := longestRun '\'' t
  let doubles := longestRun '"' t
  let escapeFree := !hasControls && !t.contains '\\'
  let three (q : Char) (body : Text) :=
    List.replicate 3 q ++ (if hasLines then ['\n'] else []) ++ body ++ List.replicate 3 q
  if escapeFree && doubles = 0 && !hasLines then '"' :: escapeAll false 0 0 t ++ ['"']
  else if !hasControls && singles = 0 && !hasLines then '\'' :: t ++ ['\'']
  else if escapeFree && doubles ≤ 2 then three '"' (escapeAll true 2 0 t)
  else if !hasControls && singles ≤ 2 then three '\'' t
  else if hasLines then three '"' (escapeAll true 2 0 t)
  else '"' :: escapeAll false 0 0 t ++ ['"']

end RoutineSync.Toml
