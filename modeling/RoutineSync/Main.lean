import RoutineSync.Project.Arguments
import RoutineSync.Terminal.Key
import RoutineSync.Terminal.Screen
/-!
The command line. Keys are read in lines, so that a line of `jjd` presses three keys; an empty line
presses the return key. The screen is drawn after every line.
-/
set_option autoImplicit false

namespace RoutineSync.CommandLine

def entryOf (bytes : ByteArray) : FileEntry :=
  match String.fromUTF8? bytes with
  | some s => .text s.toList
  | none => .binary

def withFile (t : FileTree) (path : String) : IO FileTree := do
  try
    let entry := entryOf (← IO.FS.readBinFile path)
    let t := (t.write path []).2
    return ((t.locate? path).map fun place => t.put place entry).getD t
  catch _ => return t

/-- A tree with a directory in it, and with everything below that can be read. -/
partial def withDirectory (t : FileTree) (path : String) : IO FileTree := do
  try
    let directory ← IO.FS.realPath path
    if !(← directory.isDir) then return t
    let mut t := t.makeWay [] (Path.parts path)
    for item in ← directory.readDir do
      let inner := Path.join path item.fileName
      t ← if ← item.path.isDir then withDirectory t inner else withFile t inner
    return t
  catch _ => return t

/-- The variables of the environment that a text may name. -/
def variablesIn (t : Text) : IO Environment := do
  let names := (t.splitBy fun c d => Environment.isNameChar c && Environment.isNameChar d).map
    String.ofList
  let found ← ("HOME" :: names).mapM fun n => do return (n, ← IO.getEnv n)
  return found.filterMap fun (n, v) => v.map fun v => (n, v.toList)

def configure (arguments : List String) : IO (Except ArgumentError Config × FileTree) := do
  let home := Config.home (← variablesIn [])
  let t ← withFile .empty home
  let env ← variablesIn ((t.read home).toOption.getD [])
  let here := (← IO.currentDir).toString
  let arguments := arguments.map (Path.join here)
  let project :=
    match arguments, Config.load t env home with
    | [path], _ => path
    | _, .ok (some c) => c.project
    | _, _ => ""
  let t ← withDirectory t project
  return (Config.ofArguments t env arguments, t)

def draw (output : IO.FS.Stream) (a : App) : IO Unit := do
  for row in Screen.rows 102 16 a do
    output.putStrLn (String.ofList row)
  output.flush

structure Desk where
  app : App
  tree : FileTree
  supply : IdSupply

/-- Takes the selected file over from the disk. -/
def Desk.refresh (d : Desk) : IO Desk := do
  match d.app.selectedFile.bind fun index => d.app.files[index]? with
  | none => return d
  | some path =>
    let path := path.under d.app.project
    let tree := ((d.tree.locate? path).map d.tree.erase).getD d.tree
    return { d with tree := ← withFile tree path }

def Desk.save (d : Desk) : IO Unit := do
  if let some o := d.app.opened then
    let directory := RelativePath.ofComponents o.path.components.dropLast
    IO.FS.createDirAll (directory.under d.app.project)
    IO.FS.writeFile (o.path.under d.app.project) (String.ofList o.session.text)

def Desk.press (d : Desk) (key : Key) : IO Desk := do
  let d ← if key = .openFile then d.refresh else pure d
  let saved ← try
      if key = .write then d.save
      pure true
    catch _ => pure false
  if saved then
    let ((app, tree), supply) := (d.app.press d.tree key).run d.supply
    return ⟨app, tree, supply⟩
  else return { d with app := d.app.writeFailed }

partial def serve (input output : IO.FS.Stream) (d : Desk) : IO Unit := do
  draw output d.app
  let line ← input.getLine
  if line.isEmpty then return
  let keys := line.toList.filter (· ≠ '\n')
  let keys := if keys.isEmpty then ['\n'] else keys
  let mut d := d
  for c in keys do
    if c = 'q' then return
    if let some key := Key.ofChar? c then
      d ← d.press key
  serve input output d

def startMessage : StartError → String
  | .config e => e.message ""
  | .file e => e.message

def run (arguments : List String) : IO UInt32 := do
  let (config, tree) ← configure arguments
  match config with
  | .error e =>
    for line in e.lines "routine-sync" do
      IO.eprintln line
    return 1
  | .ok config =>
    match (App.start tree config).run ⟨1⟩ with
    | (.error e, _) =>
      IO.eprintln ("Error: " ++ startMessage e)
      return 1
    | (.ok app, supply) =>
      serve (← IO.getStdin) (← IO.getStdout) ⟨app, tree, supply⟩
      return 0

end RoutineSync.CommandLine

def main (arguments : List String) : IO UInt32 := RoutineSync.CommandLine.run arguments
