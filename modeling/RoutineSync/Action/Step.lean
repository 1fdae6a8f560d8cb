import RoutineSync.Action.Basic
/-!
Steps: actions with an identity and, where they were read from text, the place of their call.
-/
set_option autoImplicit false

namespace RoutineSync

/-- The identity that a step keeps through text, list and view: a number of 128 bits. -/
structure ActionId where
  bits : BitVec 128
deriving DecidableEq

/-- Where identities come from: each one handed out is the next number. -/
structure IdSupply where
  next : Nat

abbrev Minting := StateM IdSupply

def ActionId.fresh {m : Type → Type} [Monad m] : StateT IdSupply m ActionId := fun s =>
  return (⟨BitVec.ofNat 128 s.next⟩, ⟨s.next + 1⟩)

structure CallSite where
  /-- Place of its first byte. -/
  start : Nat
  /-- Place after its semicolon. -/
  stop : Nat
  text : Text
  /-- Ranges of the parameters within the call. -/
  params : NameMap ByteRange
deriving DecidableEq

namespace CallSite

def range (s : CallSite) : ByteRange := ⟨s.start, s.stop⟩

/-- Range of a parameter in the text that holds the call. -/
def paramRange? (s : CallSite) (name : String) : Option ByteRange :=
  (s.params.get? name).map fun r => ⟨s.start + r.start, s.start + r.stop⟩

end CallSite

structure Step where
  id : ActionId
  action : Action
  site : Option CallSite
deriving DecidableEq

namespace Step

def kind (s : Step) : ActionKind := s.action.kind

def unwritten (a : Action) : Minting Step := do return ⟨← ActionId.fresh, a, none⟩

/-- Same action, whatever the identities and the places. -/
def sameAction (s t : Step) : Bool := s.action.eqv t.action

end Step

end RoutineSync
