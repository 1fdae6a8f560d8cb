import RoutineSync.Action.Basic
import RoutineSync.History.Journal
/-!
Waypoints of a robot's path, kept in a journaled list like the steps of a routine.
-/
set_option autoImplicit false

namespace RoutineSync

inductive Mechanism where
  | shoot | pistonShoot | intake | roller | expand
deriving DecidableEq, Repr

namespace Mechanism

def all : List Mechanism := [.shoot, .pistonShoot, .intake, .roller, .expand]

def name : Mechanism → String
  | .shoot => "shoot"
  | .pistonShoot => "piston_shoot"
  | .intake => "intake"
  | .roller => "roller"
  | .expand => "expand"

def ofName? (s : String) : Option Mechanism := all.find? fun m => m.name == s

theorem ofName?_name (m : Mechanism) : ofName? m.name = some m := by cases m <;> decide

end Mechanism

structure Waypoint where
  pose : Pose
  actions : List Mechanism
deriving DecidableEq

abbrev RobotPath := Journal Waypoint

end RoutineSync
