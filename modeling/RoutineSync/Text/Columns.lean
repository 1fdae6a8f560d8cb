import RoutineSync.Text.Cluster
import RoutineSync.Text.ColumnTable
/-!
Columns that a text takes on a terminal. They are counted from the end of the text, because a
character can take another number of them by what stands behind it: a selector that asks for a
picture, a joiner, or a letter with which it makes a ligature.
-/
set_option autoImplicit false

namespace RoutineSync.Text

def columnsOf (c : Char) : Nat :=
  let n := c.toNat
  if n ≤ 0xA0 then 1
  else if n = 0x17D8 then 3
  else if n = 0x115F || n = 0x17A4 || (0x1F3FB ≤ n && n ≤ 0x1F3FF) then 2
  else if n = 0x2D7F || n = 0xFF9E || n = 0xFF9F then 1
  else if extendRuns.has n || ignorableRuns.has n || columnlessRuns.has n then 0
  else if wideRuns.has n then 2
  else 1

def isAlef (c : Char) : Bool :=
  Runs.has [(0x622, 0x623), (0x625, 0x625), (0x627, 0x627), (0x671, 0x673), (0x675, 0x675),
    (0x773, 0x774), (0x870, 0x882)] c.toNat

def isLam (c : Char) : Bool :=
  Runs.has [(0x644, 0x644), (0x6B5, 0x6B8), (0x76A, 0x76A), (0x8A6, 0x8A6), (0x8C7, 0x8C7)] c.toNat

def isTifinagh (c : Char) : Bool := Runs.has [(0x2D31, 0x2D65), (0x2D6F, 0x2D6F)] c.toNat

/-- Letters at the end of a ligature, or of what is left of it. -/
inductive Ligature where
  | alef | lamed | yaBehindSign | ya | tifinagh | tifinaghBehindJoiner | lisuTone | turkicI
  | khmerLetter
deriving DecidableEq

namespace Ligature

def isOpen : Ligature → Bool
  | .alef => false
  | _ => true

def ofChar? (c : Char) : Option Ligature :=
  if isAlef c then some .alef
  else if c = '\u05dc' then some .lamed
  else if c = '\u1a10' then some .ya
  else if isTifinagh c then some .tifinagh
  else if c = '\ua4fc' || c = '\ua4fd' then some .lisuTone
  else if c.toNat = 0x10C03 then some .turkicI
  else if '\u1780' ≤ c && c ≤ '\u17af' then some .khmerLetter
  else none

end Ligature

inductive Behind where
  | other
  | lineFeed
  | modifier
  | indicator
  /-- More than one half of a flag. -/
  | indicators
  | emoji
  /-- A joiner before an emoji. -/
  | joiner
  /-- The mark of a key, before such a joiner. -/
  | joinedKey
  | joinedIndicator
  | joinedEven
  | joinedOdd
  | tagLetters (count : Nat)
  | tagDigits (count : Nat)
  | kiratE
  | kiratAi
  | ligature (l : Ligature) (joined : Bool)
deriving DecidableEq

structure Following where
  behind : Behind := .other
  /-- A selector asks for a picture. -/
  picture : Bool := false
  plain : Bool := false
deriving DecidableEq

namespace Following

def isLigature (f : Following) : Bool :=
  match f.behind with
  | .ligature _ _ => true
  | _ => false

/-- Whether an emoji is joined that is before a selector. -/
def isJoined (f : Following) : Bool := f.behind = .joiner || f.behind = .joinedKey

def withPicture (f : Following) : Following :=
  if f.isLigature || f.isJoined then { f with picture := true } else ⟨.other, true, false⟩

def withPlain (f : Following) : Following :=
  if f.isLigature then { f with plain := true } else ⟨.other, false, true⟩

/-- A selector that is not heeded breaks up all but ligatures. -/
def withoutPicture (f : Following) : Following :=
  if f.isLigature then { f with picture := false } else {}

def withoutPlain (f : Following) : Following :=
  if f.isLigature then { f with plain := false } else {}

end Following

def isStyled (c : Char) : Bool := styledRuns.has c.toNat
def isEmoji (c : Char) : Bool := emojiRuns.has c.toNat
def isModifier (c : Char) : Bool := 0x1F3FB ≤ c.toNat && c.toNat ≤ 0x1F3FF

def isPlainStyled (c : Char) : Bool :=
  isStyled c && isEmoji c && !(0x1F200 ≤ c.toNat && c.toNat ≤ 0x1F2FF)

/-- A character that does not keep two others from making a ligature. -/
def isTransparent (c : Char) : Bool :=
  Runs.has [(0x34F, 0x34F), (0x17B4, 0x17B5), (0x180B, 0x180D), (0x180F, 0x180F),
    (0x200D, 0x200D), (0xFE00, 0xFE0F), (0xE0100, 0xE01EF)] c.toNat

def isJoiningTransparent (c : Char) : Bool := columnsOf c = 0 && !fixedRuns.has c.toNat

def alone (c : Char) : Int × Behind :=
  let behind :=
    match Ligature.ofChar? c with
    | some l => .ligature l false
    | none =>
      if c.toNat = 0x16D67 then .kiratE
      else if c.toNat = 0x16D68 then .kiratAi
      else if isIndicator c then .indicator
      else if isModifier c then .modifier
      else if isEmoji c then .emoji
      else .other
  (columnsOf c, behind)

/-- What a character adds before the end of a ligature, where a joiner may have come between. -/
def beforeLigature? (c : Char) : Ligature → Bool → Option (Int × Behind)
  | .alef, _ =>
    if isLam c then some (0, .other)
    else if isJoiningTransparent c then some (0, .ligature .alef false)
    else none
  | .lamed, true => if c = '\u05d0' then some (0, .other) else none
  | .khmerLetter, _ => if c = '\u17d2' then some (-1, .other) else none
  | .ya, true => if c = '\u1a17' then some (0, .ligature .yaBehindSign false) else none
  | .yaBehindSign, _ => if c = '\u1a15' then some (0, .other) else none
  | .tifinagh, joined =>
    if c = '\u2d7f' then some (1, .ligature .tifinaghBehindJoiner false)
    else if joined && isTifinagh c then some (0, .other)
    else none
  | .tifinaghBehindJoiner, _ => if isTifinagh c then some (-1, .other) else none
  | .lisuTone, _ => if '\ua4f8' ≤ c && c ≤ '\ua4fb' then some (0, .other) else none
  | .turkicI, true => if c.toNat = 0x10C32 then some (0, .other) else none
  | _, _ => none

def beforeJoiner? (c : Char) : Option (Int × Behind) :=
  if c.toNat = 0x20E3 then some (0, .joinedKey)
  else if isIndicator c then some (1, .joinedIndicator)
  else if isModifier c then some (0, .modifier)
  else if c.toNat = 0xE007F then some (0, .tagLetters 0)
  else if isEmoji c then some (0, .emoji)
  else none

def beforeTag? (n : Nat) : Behind → Option (Int × Behind)
  | .tagLetters k =>
    if k < 6 && 0xE0061 ≤ n && n ≤ 0xE007A then some (0, .tagLetters (k + 1))
    else if k < 5 && 0xE0030 ≤ n && n ≤ 0xE0039 then some (0, .tagDigits 1)
    else if 3 ≤ k && n = 0x1F3F4 then some (0, .emoji)
    else none
  | .tagDigits k =>
    if k < 3 && 0xE0030 ≤ n && n ≤ 0xE0039 then some (0, .tagDigits (k + 1))
    else if k = 3 && n = 0x1F3F4 then some (0, .emoji)
    else none
  | _ => none

/-- What a character adds, and what it is to the one before it, where what stands behind it makes a
difference. -/
def before? (c : Char) (b : Behind) : Option (Int × Behind) :=
  let n := c.toNat
  match b with
  | .other | .lineFeed => none
  | .ligature l joined =>
    if l.isOpen && c = joiner then some (0, .ligature l true)
    else if l.isOpen && isTransparent c then some (0, .ligature l joined)
    else beforeLigature? c l joined
  | .indicator => if isIndicator c then some (1, .indicators) else none
  | .indicators =>
    if isIndicator c then some (1, .indicators)
    else if c = joiner then some (0, .joiner)
    else none
  | .modifier =>
    if modifiableRuns.has n then some (0, .emoji)
    else if c = joiner then some (0, .joiner)
    else none
  | .emoji => if c = joiner then some (0, .joiner) else none
  | .joiner => beforeJoiner? c
  | .joinedKey => none
  | .joinedIndicator => if isIndicator c then some (-1, .joinedEven) else none
  | .joinedEven =>
    if isIndicator c then some (3, .joinedOdd)
    else if c = joiner then some (0, .joiner)
    else none
  | .joinedOdd =>
    if isIndicator c then some (-1, .joinedEven)
    else if c = joiner then some (0, .joiner)
    else none
  | .tagLetters _ | .tagDigits _ => beforeTag? n b
  | .kiratE =>
    if n = 0x16D63 || n = 0x16D69 then some (0, .other)
    else if n = 0x16D67 then some (0, .kiratAi)
    else if n = 0x16D68 then some (1, .kiratE)
    else none
  | .kiratAi => if n = 0x16D63 then some (0, .other) else none

def addColumns (c : Char) (f : Following) : Int × Following :=
  if f.picture && isStyled c then (if f.isJoined then 0 else 2, { behind := .emoji })
  else
    let f := if f.picture then f.withoutPicture else f
    if c.toNat ≤ 0xA0 then
      if c = '\n' then (1, { behind := .lineFeed })
      else if c = '\r' && f.behind = .lineFeed then (0, {})
      else (1, {})
    else if c = '\ufe0f' then (0, f.withPicture)
    else if c = '\ufe0e' then (0, f.withPlain)
    else if f.plain && isPlainStyled c then (1, {})
    else
      let f := if f.plain then f.withoutPlain else f
      let (count, behind) := (before? c f.behind).getD (alone c)
      (count, { behind })

def columns (t : Text) : Nat :=
  (t.foldr (fun c (sum, f) => let (count, f) := addColumns c f; (sum + count, f))
    ((0 : Int), ({} : Following))).1.toNat

end RoutineSync.Text
