import RoutineSync.Project.Config
/-!
The arguments of the command line: the path of a project, or nothing for the configuration that is
kept.
-/
set_option autoImplicit false

namespace RoutineSync

inductive ArgumentError where
  /-- No path is given, and there is no configuration at the path where it is kept. -/
  | noProject (home : String)
  | badConfig (home : String) (error : ConfigError)
  | tooMany
  /-- The project's directory is not there; the configuration that named it, if one did. -/
  | badProject (project : String) (home : Option String)
deriving DecidableEq

namespace ConfigError

def message (path : String) : ConfigError → String
  | .unreadable => "Failed to read config file at " ++ path
  | .malformed => "Failed to parse config file at " ++ path
  | .badPattern pattern => "Invalid auton file pattern " ++ pattern

end ConfigError

namespace ArgumentError

def lines (command : String) : ArgumentError → List String
  | .noProject home =>
    ["Error: No project path provided and no config file found",
      s!"Usage: {command} <project-path>", "Or create a config file at " ++ home]
  | .badConfig home error =>
    ["Error: Failed to load config file: " ++ error.message home,
      s!"Usage: {command} <project-path>"]
  | .tooMany => [s!"Usage: {command} [project-path]"]
  | .badProject project home =>
    let source := (home.map fun h => s!" from config file '{h}'").getD ""
    [s!"Error: Project path '{project}'{source} is invalid: " ++ FileError.noDirectory.message]

end ArgumentError

def Config.ofArguments (t : FileTree) (env : Environment) (arguments : List String) :
    Except ArgumentError Config := do
  let home := Config.home env
  let (c, source) ←
    match arguments with
    | [project] => pure (Config.ofProject project, none)
    | [] =>
      match Config.load t env home with
      | .ok (some c) => pure (c, some home)
      | .ok none => throw (.noProject home)
      | .error e => throw (.badConfig home e)
    | _ => throw .tooMany
  match t.checkProject c.project with
  | .ok () => return c
  | .error _ => throw (.badProject c.project source)

end RoutineSync
