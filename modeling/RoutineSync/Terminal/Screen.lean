import RoutineSync.Terminal.App
import RoutineSync.Terminal.Cells
import RoutineSync.Text.Lines
/-!
What the front end draws: a box with the files, a box with the steps of the open file, a line for
the status and one for the keys. Both boxes stand in a margin of one column and one row.
-/
set_option autoImplicit false

namespace RoutineSync

namespace App

def padRight (count : Nat) (t : Text) : Text := t ++ List.replicate (count - t.length) ' '
def padLeft (count : Nat) (t : Text) : Text := List.replicate (count - t.length) ' ' ++ t

def trimRight (t : Text) : Text := (t.reverse.dropWhile Text.isBlank).reverse

def paramsText (a : Action) : Text :=
  [' '].intercalate (a.params.map fun (name, v) => name.toList ++ '=' :: v.source)

/-- The parts of a step's line: its index, its kind, its parameters, and the number of the line in
the text where its call starts. -/
def stepSpans (text : Text) (index : Nat) (s : Step) : List Text :=
  [padLeft 3 (Decimal.natText index) ++ [' '], padRight 14 s.kind.name.toList,
    paramsText s.action ++ [' '],
    match s.site with
    | none => "unsynced".toList
    | some site => '@' :: Decimal.natText (text.lineNumber site.start + 1)]

def stepLines (a : App) : List (List Text) :=
  match a.opened with
  | none => []
  | some o => o.session.steps.mapIdx (stepSpans o.session.text)

def lineText (spans : List Text) : Text :=
  let count := spans.foldr (fun t n => Cells.extent t + n) 0
  Cells.seen (Cells.drawSpans count 0 (Cells.blank count) spans)

def stepTexts (a : App) : List Text := a.stepLines.map fun spans => trimRight (lineText spans)

/-- Number of steps in a file, as last read or written. -/
def fileCount (a : App) (path : RelativePath) : Nat :=
  ((a.catalog.steps? path).map (·.length)).getD 0

def fileLines (a : App) : List (List Text) :=
  a.files.map fun path =>
    [path.spelling.toList, " (".toList ++ Decimal.natText (a.fileCount path) ++ [')']]

def title (a : App) : Text :=
  match a.opened with
  | none => "Actions".toList
  | some o =>
    let mark := if o.session.desynced then " [desynced]" else if o.dirty then " [+]" else ""
    o.path.spelling.toList ++ mark.toList

def help : Text :=
  ("q: Quit | j/k: Move | Tab: Switch pane | Enter: Open | d: Delete | a: Add wait | "
    ++ "u/r: Undo/Redo | w: Write").toList

end App

namespace Screen

/-- The rows of a box, with a title in its upper edge and lines inside. Lines are cut where the box
ends, and the title where its columns end. -/
def box (width height : Nat) (title : Text) (lines : List (List Text)) : List Cells :=
  let inner := width - 2
  let edge := List.replicate inner ['─']
  let room := min inner (title.lines.foldr (fun t n => Text.columns t + n) 0)
  let head := Cells.drawSpans room 0 edge title.lines
  let rows := (List.range (height - 2)).map fun i =>
    Cells.drawSpans inner 0 (Cells.blank inner) (lines[i]?.getD [])
  (['┌'] :: head ++ [['┐']]) :: rows.map (fun r => ['│'] :: r ++ [['│']])
    ++ [['└'] :: edge ++ [['┘']]]

/-- The rows of the screen, without the blanks at their ends. The files take three tenths of the
columns inside the margin. -/
def rows (width height : Nat) (a : App) : List Text :=
  let inner := width - 2
  let left := 3 * inner / 10
  let tall := height - 4
  let steps := if a.opened.isSome then a.stepLines else [["Select a file and press Enter".toList]]
  let files := box left tall "Autons".toList a.fileLines
  let actions := box (inner - left) tall a.title steps
  let boxes := List.zipWith (fun f s => [' '] :: f ++ s) files actions
  let last := [[], Cells.ofText width a.status.toList, Cells.ofText width App.help]
  ([] :: boxes ++ last).map fun row => App.trimRight (Cells.seen row)

end Screen

end RoutineSync
