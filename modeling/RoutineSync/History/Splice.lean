/-!
Splices of a list: a range of it gives way to other elements.
-/
set_option autoImplicit false

namespace RoutineSync

structure RangeError where
  index : Nat
  count : Nat
  len : Nat
deriving DecidableEq, Repr

namespace RangeError

def message (e : RangeError) : String :=
  s!"range {e.index}..{e.index + e.count} is outside a list of {e.len} elements"

end RangeError

def checkRange (index count len : Nat) : Except RangeError Unit :=
  if index + count ≤ len then .ok () else .error ⟨index, count, len⟩

/-- Takes `count` elements out at `index` and puts `inserted` there. -/
structure Splice (α : Type) where
  index : Nat
  count : Nat
  inserted : List α
deriving DecidableEq

namespace Splice
variable {α : Type}

def run (s : Splice α) (xs : List α) : List α :=
  xs.take s.index ++ s.inserted ++ xs.drop (s.index + s.count)

def removed (s : Splice α) (xs : List α) : List α := (xs.drop s.index).take s.count

def Fits (s : Splice α) (xs : List α) : Prop := s.index + s.count ≤ xs.length

def reverse (s : Splice α) (xs : List α) : Splice α := ⟨s.index, s.inserted.length, s.removed xs⟩

end Splice

end RoutineSync
