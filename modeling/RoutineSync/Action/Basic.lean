import RoutineSync.Action.NameMap
import RoutineSync.Action.Value
/-!
The actions of a routine: a closed set of kinds, each with its own parameters. The main statement is
that an action is rebuilt from its kind and its parameters.
-/
set_option autoImplicit false

namespace RoutineSync

structure Pose where
  x : Binary64
  y : Binary64
  heading : Binary64
deriving DecidableEq

inductive ActionKind where
  | setPose | moveTo | turnTo | follow | wait | roller | expand | shoot | pistonShoot | intake
  | stopIntake
deriving DecidableEq, Repr

namespace ActionKind

/-- All kinds, in the order of the call library. -/
def all : List ActionKind :=
  [.setPose, .moveTo, .turnTo, .follow, .wait, .roller, .expand, .shoot, .pistonShoot, .intake,
    .stopIntake]

theorem mem_all (k : ActionKind) : k ∈ all := by cases k <;> decide

def callName : ActionKind → String
  | .setPose => "setPose"
  | .moveTo => "moveTo"
  | .turnTo => "turnTo"
  | .follow => "follow"
  | .wait => "wait"
  | .roller => "roller"
  | .expand => "expand"
  | .shoot => "shoot"
  | .pistonShoot => "pistonShoot"
  | .intake => "intake"
  | .stopIntake => "stopIntake"

/-- The name shown to people and written on the wire. -/
def name : ActionKind → String
  | .setPose => "set_pose"
  | .moveTo => "move_to"
  | .turnTo => "turn_to"
  | .follow => "follow"
  | .wait => "wait"
  | .roller => "roller"
  | .expand => "expand"
  | .shoot => "shoot"
  | .pistonShoot => "piston_shoot"
  | .intake => "intake"
  | .stopIntake => "stop_intake"

def ofName? (s : String) : Option ActionKind := all.find? fun k => k.name == s

theorem ofName?_name (k : ActionKind) : ofName? k.name = some k := by cases k <;> decide

def establishesPose (k : ActionKind) : Bool := k == .setPose

end ActionKind

inductive Action where
  | setPose (pose : Pose) (radians : Option Bool)
  | moveTo (x y : Binary64) (timeout : Int64) (maxSpeed : Option Binary64) (log : Option Bool)
  | turnTo (x y : Binary64) (timeout : Int64) (reversed : Option Bool) (maxSpeed : Option Binary64)
      (log : Option Bool)
  | follow (filePath : Text) (timeout : Int64) (lookahead : Binary64) (reverse : Option Bool)
      (maxSpeed : Option Binary64) (log : Option Bool)
  | wait (milliseconds : Int64)
  | roller | expand | shoot | pistonShoot | intake | stopIntake
deriving DecidableEq

namespace Action

def kind : Action → ActionKind
  | .setPose .. => .setPose
  | .moveTo .. => .moveTo
  | .turnTo .. => .turnTo
  | .follow .. => .follow
  | .wait .. => .wait
  | .roller => .roller
  | .expand => .expand
  | .shoot => .shoot
  | .pistonShoot => .pistonShoot
  | .intake => .intake
  | .stopIntake => .stopIntake

def pose? : Action → Option Pose
  | .setPose p _ => some p
  | _ => none

def entry {α : Type} (name : String) (wrap : α → Value) (a : Option α) : NameMap Value :=
  (a.map fun v => (name, wrap v)).toList

/-- The parameters that are present, in the order of their names. -/
def params : Action → NameMap Value
  | .setPose p radians =>
    [("heading", .float p.heading)] ++ entry "radians" .bool radians
      ++ [("x", .float p.x), ("y", .float p.y)]
  | .moveTo x y timeout maxSpeed log =>
    entry "log" .bool log ++ entry "maxSpeed" .float maxSpeed
      ++ [("timeout", .int timeout), ("x", .float x), ("y", .float y)]
  | .turnTo x y timeout reversed maxSpeed log =>
    entry "log" .bool log ++ entry "maxSpeed" .float maxSpeed ++ entry "reversed" .bool reversed
      ++ [("timeout", .int timeout), ("x", .float x), ("y", .float y)]
  | .follow filePath timeout lookahead reverse maxSpeed log =>
    [("filePath", .text filePath)] ++ entry "log" .bool log
      ++ [("lookahead", .float lookahead)] ++ entry "maxSpeed" .float maxSpeed
      ++ entry "reverse" .bool reverse ++ [("timeout", .int timeout)]
  | .wait milliseconds => [("milliseconds", .int milliseconds)]
  | .roller | .expand | .shoot | .pistonShoot | .intake | .stopIntake => []

end Action

namespace Value

/-- An integer counts as a float where a float is asked for. -/
def float? : Value → Option Binary64
  | .float x => some x
  | .int n => some (.ofInt n.toInt)
  | _ => none

def int? : Value → Option Int64
  | .int n => some n
  | _ => none

def bool? : Value → Option Bool
  | .bool b => some b
  | _ => none

def text? : Value → Option Text
  | .text cs => some cs
  | _ => none

end Value

namespace Action

def required {α : Type} (m : NameMap Value) (read? : Value → Option α) (name : String) : Option α :=
  (m.get? name).bind read?

/-- A parameter that may be absent, but not of another type: `some none` is a parameter left out. -/
def optional {α : Type} (m : NameMap Value) (read? : Value → Option α) (name : String) :
    Option (Option α) :=
  match m.get? name with
  | none => some none
  | some v => (read? v).map some

/-- The action of a kind with the given parameters; none when a required parameter is missing or any
has another type. Names that the kind does not have are ignored. -/
def ofParams? (kind : ActionKind) (m : NameMap Value) : Option Action :=
  match kind with
  | .setPose => do
    let x ← required m Value.float? "x"
    let y ← required m Value.float? "y"
    let heading ← required m Value.float? "heading"
    let radians ← optional m Value.bool? "radians"
    return .setPose ⟨x, y, heading⟩ radians
  | .moveTo => do
    let x ← required m Value.float? "x"
    let y ← required m Value.float? "y"
    let timeout ← required m Value.int? "timeout"
    let maxSpeed ← optional m Value.float? "maxSpeed"
    let log ← optional m Value.bool? "log"
    return .moveTo x y timeout maxSpeed log
  | .turnTo => do
    let x ← required m Value.float? "x"
    let y ← required m Value.float? "y"
    let timeout ← required m Value.int? "timeout"
    let reversed ← optional m Value.bool? "reversed"
    let maxSpeed ← optional m Value.float? "maxSpeed"
    let log ← optional m Value.bool? "log"
    return .turnTo x y timeout reversed maxSpeed log
  | .follow => do
    let filePath ← required m Value.text? "filePath"
    let timeout ← required m Value.int? "timeout"
    let lookahead ← required m Value.float? "lookahead"
    let reverse ← optional m Value.bool? "reverse"
    let maxSpeed ← optional m Value.float? "maxSpeed"
    let log ← optional m Value.bool? "log"
    return .follow filePath timeout lookahead reverse maxSpeed log
  | .wait => (required m Value.int? "milliseconds").map .wait
  | .roller => some .roller
  | .expand => some .expand
  | .shoot => some .shoot
  | .pistonShoot => some .pistonShoot
  | .intake => some .intake
  | .stopIntake => some .stopIntake

theorem kind_of_ofParams? {kind : ActionKind} {m : NameMap Value} {a : Action}
    (h : ofParams? kind m = some a) : a.kind = kind := by
  cases kind <;> simp only [ofParams?, Option.bind_eq_bind, Option.pure_def,
    Option.bind_eq_some_iff, Option.map_eq_some_iff, Option.some.injEq] at h
  all_goals grind [Action.kind]

theorem ofParams?_params (a : Action) : ofParams? a.kind a.params = some a := by
  cases a with
  | setPose p radians => cases radians <;> rfl
  | moveTo x y timeout maxSpeed log => cases maxSpeed <;> cases log <;> rfl
  | turnTo x y timeout reversed maxSpeed log =>
    cases reversed <;> cases maxSpeed <;> cases log <;> rfl
  | follow filePath timeout lookahead reverse maxSpeed log =>
    cases reverse <;> cases maxSpeed <;> cases log <;> rfl
  | _ => rfl

def eqv (a b : Action) : Bool :=
  a.kind == b.kind && a.params.names == b.params.names
    && (a.params.zip b.params).all fun (p, q) => p.2.eqv q.2

end Action

end RoutineSync
