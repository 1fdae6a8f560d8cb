import RoutineSync.Action.Basic
import RoutineSync.Wire.Field
/-!
Values, poses and actions on the wire. An action is a kind under `type` and, where the kind has
parameters, a record under `params`; parameters that are left out are written as null.
-/
set_option autoImplicit false

namespace RoutineSync.Wire

open Json

def kindJson (k : ActionKind) : Json := ofString k.name

def kind? (held : Bool) (j : Json) : Option ActionKind := (j.name? held).bind ActionKind.ofName?

def valueJson : Value → Json
  | .float x => .object [("Float", ofReal x)]
  | .int n => .object [("Int", ofInt64 n)]
  | .bool b => .object [("Bool", .bool b)]
  | .text t => .object [("Str", .text t)]

def value? (j : Json) : Option Value := do
  match ← j.single? with
  | ("Float", v) => v.real?.map .float
  | ("Int", v) => v.int64?.map .int
  | ("Bool", v) => v.bool?.map .bool
  | ("Str", v) => v.text?.map .text
  | _ => none

def poseFields (p : Pose) : Record :=
  [("x", ofReal p.x), ("y", ofReal p.y), ("heading", ofReal p.heading)]

def poseJson (p : Pose) : Json := .object (poseFields p)

def poseOf? (r : Record) : Option Pose := do
  return ⟨← r.required? "x" real?, ← r.required? "y" real?, ← r.required? "heading" real?⟩

def pose? (j : Json) : Option Pose := do poseOf? (← j.record? ["x", "y", "heading"])

/-- The parameters of an action; none for a kind without any. -/
def paramsJson? : Action → Option Json
  | .setPose p radians =>
    some (.object (poseFields p ++ [("radians", ofNullable .bool radians)]))
  | .moveTo x y timeout maxSpeed log =>
    some (.object [("x", ofReal x), ("y", ofReal y), ("timeout", ofInt64 timeout),
      ("maxSpeed", ofNullable ofReal maxSpeed), ("log", ofNullable .bool log)])
  | .turnTo x y timeout reversed maxSpeed log =>
    some (.object [("x", ofReal x), ("y", ofReal y), ("timeout", ofInt64 timeout),
      ("reversed", ofNullable .bool reversed), ("maxSpeed", ofNullable ofReal maxSpeed),
      ("log", ofNullable .bool log)])
  | .follow filePath timeout lookahead reverse maxSpeed log =>
    some (.object [("filePath", .text filePath), ("timeout", ofInt64 timeout),
      ("lookahead", ofReal lookahead), ("reverse", ofNullable .bool reverse),
      ("maxSpeed", ofNullable ofReal maxSpeed), ("log", ofNullable .bool log)])
  | .wait milliseconds => some (.object [("milliseconds", ofInt64 milliseconds)])
  | .roller | .expand | .shoot | .pistonShoot | .intake | .stopIntake => none

def actionJson (a : Action) : Json :=
  .object (("type", kindJson a.kind) :: ((paramsJson? a).map fun j => ("params", j)).toList)

def bare? : ActionKind → Option Action
  | .roller => some .roller
  | .expand => some .expand
  | .shoot => some .shoot
  | .pistonShoot => some .pistonShoot
  | .intake => some .intake
  | .stopIntake => some .stopIntake
  | .setPose | .moveTo | .turnTo | .follow | .wait => none

/-- The action of a kind with what stands under its parameters; a kind without parameters takes
null. -/
def withParams? (kind : ActionKind) (j : Json) : Option Action :=
  match kind with
  | .setPose => do
    let r ← j.record? ["x", "y", "heading", "radians"]
    return .setPose (← poseOf? r) (← r.optional? "radians" bool?)
  | .moveTo => do
    let r ← j.record? ["x", "y", "timeout", "maxSpeed", "log"]
    return .moveTo (← r.required? "x" real?) (← r.required? "y" real?)
      (← r.required? "timeout" int64?) (← r.optional? "maxSpeed" real?) (← r.optional? "log" bool?)
  | .turnTo => do
    let r ← j.record? ["x", "y", "timeout", "reversed", "maxSpeed", "log"]
    return .turnTo (← r.required? "x" real?) (← r.required? "y" real?)
      (← r.required? "timeout" int64?) (← r.optional? "reversed" bool?)
      (← r.optional? "maxSpeed" real?) (← r.optional? "log" bool?)
  | .follow => do
    let r ← j.record? ["filePath", "timeout", "lookahead", "reverse", "maxSpeed", "log"]
    return .follow (← r.required? "filePath" text?) (← r.required? "timeout" int64?)
      (← r.required? "lookahead" real?) (← r.optional? "reverse" bool?)
      (← r.optional? "maxSpeed" real?) (← r.optional? "log" bool?)
  | .wait => do
    let r ← j.record? ["milliseconds"]
    return .wait (← r.required? "milliseconds" int64?)
  | .roller | .expand | .shoot | .pistonShoot | .intake | .stopIntake =>
    match j with
    | .null => bare? kind
    | _ => none

/-- A kind at the head of an array. In a value that is `held` its place in the library will do too.
-/
def headKind? (held : Bool) : Json → Option ActionKind
  | .text t => ActionKind.ofName? (String.ofList t)
  | .natural n => if held then ActionKind.all[n]? else none
  | _ => none

/-- An action in an object, or as a kind and parameters in an array. Parameters that stand before
the kind are taken in before anything is known of them. -/
def action? (held : Bool) : Json → Option Action
  | .object fields => do
    guard (Record.isClear fields ["type", "params"])
    let kind ← Record.required? fields "type" (kind? held)
    match fields.lookup "params" with
    | none => bare? kind
    | some params =>
      guard ((fields.find? fun f => f.1 == "type" || f.1 == "params").any (·.1 == "type")
        || params.isReadable)
      withParams? kind params
  | .array [kind, params] => do withParams? (← headKind? held kind) params
  | _ => none

end RoutineSync.Wire
