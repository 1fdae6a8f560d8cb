import RoutineSync.Text.Basic
/-!
Wildcard patterns for one component of a path. A name matches as a whole, and case counts.
-/
set_option autoImplicit false

namespace RoutineSync.Glob

/-- A set of characters in brackets: single ones and ranges, both as their ends. -/
abbrev CharSet := List (Char × Char)

inductive Token where
  | char (c : Char)
  | any
  | star
  | oneOf (set : CharSet)
  | noneOf (set : CharSet)
deriving DecidableEq

inductive Component where
  | name (tokens : List Token)
  | directories
deriving DecidableEq

/-- Characters and ranges between brackets; a hyphen between two characters makes a range. -/
def charSet : Text → CharSet
  | a :: '-' :: b :: r => (a, b) :: charSet r
  | a :: r => (a, a) :: charSet r
  | [] => []

def holds (set : CharSet) (c : Char) : Bool := set.any fun (a, b) => a ≤ c && c ≤ b

/-- Text up to a closing bracket, which is not the first character, and the text behind it. -/
def bracket? : Text → Option (Text × Text)
  | [] => none
  | c :: r =>
    if r.contains ']' then some (c :: r.takeWhile (· ≠ ']'), (r.dropWhile (· ≠ ']')).drop 1)
    else none

theorem length_of_bracket? {t a b : Text} (h : bracket? t = some (a, b)) : b.length < t.length := by
  cases t with
  | nil => simp [bracket?] at h
  | cons c r =>
    simp only [bracket?] at h
    split at h
    · simp only [Option.some.injEq, Prod.mk.injEq] at h
      have hr : (r.dropWhile fun c => decide (c ≠ ']')).length ≤ r.length :=
        (List.dropWhile_sublist _).length_le
      rw [← h.2, List.length_drop, List.length_cons]
      omega
    · simp at h

/-- The tokens of a name; none where brackets are not closed or stars stand together. -/
def tokens? (t : Text) : Option (List Token) :=
  match t with
  | [] => some []
  | '?' :: r => (tokens? r).map (.any :: ·)
  | '*' :: '*' :: _ => none
  | '*' :: r => (tokens? r).map (.star :: ·)
  | '[' :: '!' :: r =>
    match h : bracket? r with
    | some (set, rest) =>
      have := length_of_bracket? h
      (tokens? rest).map (.noneOf (charSet set) :: ·)
    | none => none
  | '[' :: r =>
    match h : bracket? r with
    | some (set, rest) =>
      have := length_of_bracket? h
      (tokens? rest).map (.oneOf (charSet set) :: ·)
    | none => none
  | c :: r => (tokens? r).map (.char c :: ·)
termination_by t.length

/-- A component of a pattern. Two stars stand for directories, and only on their own. -/
def component? (t : Text) : Option Component :=
  if t = ['*', '*'] then some .directories else (tokens? t).map .name

def Token.takes (c : Char) : Token → Bool
  | .char d => c == d
  | .any | .star => true
  | .oneOf set => holds set c
  | .noneOf set => !holds set c

/-- What a token can leave of texts of which each is an end of the first. -/
def Token.leave (rests : List Text) : Token → List Text
  | .star => (rests.head?.map Text.suffixes).getD []
  | k => rests.filterMap fun t =>
    match t with
    | c :: r => if k.takes c then some r else none
    | [] => none

def matchName (ks : List Token) (t : Text) : Bool := (ks.foldl Token.leave [t]).contains []

theorem foldl_leave_nil (ks : List Token) : ks.foldl Token.leave [] = [] := by
  induction ks with
  | nil => rfl
  | cons k ks ih => cases k <;> simpa [Token.leave] using ih

theorem matchName_char_iff {cs t : Text} : matchName (cs.map .char) t = true ↔ t = cs := by
  simp only [matchName, List.contains_iff_mem]
  induction cs generalizing t with
  | nil => cases t <;> simp
  | cons c cs ih =>
    cases t with
    | nil => simp [Token.leave, foldl_leave_nil]
    | cons d r => by_cases h : d = c <;> simp [Token.leave, Token.takes, foldl_leave_nil, h, ih]

theorem matchName_star (t : Text) : matchName [.star] t = true := by
  simp [matchName, Token.leave, Text.nil_mem_suffixes]

def Token.char? : Token → Option Char
  | .char c => some c
  | _ => none

def literal? (ks : List Token) : Option String :=
  (ks.mapM Token.char?).map String.ofList

end RoutineSync.Glob
