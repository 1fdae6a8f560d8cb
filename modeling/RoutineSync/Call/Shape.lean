import RoutineSync.Action.Basic
import RoutineSync.Call.Literal
/-!
The shape of a call: the function it names and the parameters it takes, the required ones first.
-/
set_option autoImplicit false

namespace RoutineSync

structure Param where
  name : String
  type : ValueType
  optional : Bool
  /-- Written where a later optional parameter forces this one out. -/
  default : Option Value
deriving DecidableEq

namespace Param

def typedName (p : Param) : String := p.type.letter ++ "_" ++ p.name

def need (name : String) (type : ValueType) : Param := ⟨name, type, false, none⟩

def may (name : String) (default : Value) : Param := ⟨name, default.type, true, some default⟩

end Param

inductive Fragment where
  | literal (text : String)
  /-- Stands between arguments, so only where the next one is written. -/
  | separator
  | param (index : Nat)
deriving DecidableEq

structure CallShape where
  kind : ActionKind
  params : List Param
deriving DecidableEq

namespace CallShape

/-- The shape with the parameters in the order in which calls take them: an optional parameter can
only be left out at the end, so the required ones come first. -/
def ofParams (kind : ActionKind) (params : List Param) : CallShape :=
  ⟨kind, params.filter (!·.optional) ++ params.filter (·.optional)⟩

def param? (s : CallShape) (name : String) : Option Param := s.params.find? fun p => p.name == name

def fragments (s : CallShape) : List Fragment :=
  .literal ("auton::" ++ s.kind.callName ++ "(")
    :: ((List.range s.params.length).map Fragment.param).intersperse .separator
    ++ [.literal ");"]

end CallShape

def ActionKind.declared : ActionKind → List Param
  | .setPose =>
    [.need "x" .float, .need "y" .float, .need "heading" .float, .may "radians" (.bool false)]
  | .moveTo =>
    [.need "x" .float, .need "y" .float, .need "timeout" .int,
      .may "maxSpeed" (.float (.ofInt 200)), .may "log" (.bool false)]
  | .turnTo =>
    [.need "x" .float, .need "y" .float, .need "timeout" .int, .may "reversed" (.bool false),
      .may "maxSpeed" (.float (.ofInt 127)), .may "log" (.bool false)]
  | .follow =>
    [.need "filePath" .text, .need "timeout" .int, .need "lookahead" .float,
      .may "reverse" (.bool false), .may "maxSpeed" (.float (.ofInt 127)), .may "log" (.bool false)]
  | .wait => [.need "milliseconds" .int]
  | .roller | .expand | .shoot | .pistonShoot | .intake | .stopIntake => []

namespace CallShape

def standard (kind : ActionKind) : CallShape := ofParams kind kind.declared

def library : List CallShape := ActionKind.all.map standard

end CallShape

end RoutineSync
