import RoutineSync.Action.Step
import RoutineSync.Call.Matcher
import RoutineSync.Call.Writer
import RoutineSync.Operations
/-!
Writing actions: new calls, and new values in a call that is already there. In a call that is kept
only the literals that have to change are touched, so that comments and spacing stay.
-/
set_option autoImplicit false

namespace RoutineSync

inductive WriteError where
  | outOfRange (range : RangeError)
  | unrenderable (kind : ActionKind)
  | invalidValue (kind : ActionKind) (param : String)
deriving DecidableEq

namespace WriteError

def message : WriteError → String
  | .outOfRange range => range.message
  | .unrenderable kind => s!"cannot generate source for {kind.name}"
  | .invalidValue kind param => s!"{kind.name} parameter {param} has no literal form"

end WriteError

namespace Action

/-- Refuses a value that could not be read back; the first one by name is told. -/
def checkWritable (a : Action) : Except WriteError Unit :=
  match a.params.find? fun e => !e.2.isWritable with
  | some (param, _) => .error (.invalidValue a.kind param)
  | none => .ok ()

def generate (a : Action) : Except WriteError CallText := do
  a.checkWritable
  match (CallShape.standard a.kind).writeAction? a with
  | some call => return call
  | none => throw (.unrenderable a.kind)

end Action

namespace CallSite

/-- Adds the rewriting of a parameter, unless its range is rewritten already. -/
def addPatch (range : ByteRange) (v : Value) (patches : List TextEdit) : List TextEdit :=
  if patches.any fun p => p.range == range then patches else patches ++ [⟨range, v.source⟩]

/-- The patches for the parameters of the given names; none where one is present in only one of the
two actions, or has no known range. -/
def patchesFor (s : CallSite) (before after : NameMap Value) :
    List String → List TextEdit → Option (List TextEdit)
  | [], patches => some patches
  | name :: names, patches =>
    match before.get? name, after.get? name with
    | some v, some w =>
      if v.eqv w then patchesFor s before after names patches
      else do
        let range ← s.params.get? name
        patchesFor s before after names (addPatch range w patches)
    | _, _ => none

def patches? (s : CallSite) (before after : Action) : Option (List TextEdit) :=
  (s.patchesFor before.params after.params (before.params.names ++ after.params.names) []).map
    fun ps => ps.mergeSort fun p q => p.range.start ≤ q.range.start

def rewritten (s : CallSite) (call : CallText) : CallSite :=
  ⟨s.start, s.start + call.text.size, call.text, call.params⟩

/-- The edits for patches that have turned the call into `text`, and the call that it reads as then,
at its place before other edits. -/
def reread? (s : CallSite) (kind : ActionKind) (patches : List TextEdit) (text : Text) :
    Option (List TextEdit × CallSite) := do
  let found ← (CallShape.standard kind).match? text
  let (_, ranges) ← found.extract?
  let edits := patches.map fun p =>
    ({ p with range := ⟨s.start + p.range.start, s.start + p.range.stop⟩ } : TextEdit)
  return (edits, s.rewritten ⟨text, ranges⟩)

end CallSite

namespace Operations
variable {m : Type → Type} [Monad m] (o : Operations m) (s : CallSite)

/-- Makes patches in a call, the last one first. -/
def patched (patches : List TextEdit) : m Text := patches.foldrM (fun p t => o.replace p t) s.text

def kept (before after : Action) : m (Option (List TextEdit × CallSite)) :=
  match if before.kind = after.kind then s.patches? before after else none with
  | none => return none
  | some patches => return s.reread? after.kind patches (← o.patched s patches)

/-- The edits that turn the call of one action into the call of another, and the call afterwards, at
its place before other edits. The call is written anew where a parameter comes or goes, where the
kind changes, and where the patched text would not read as a call any more. -/
def patchTo (before after : Action) : ExceptT WriteError m (List TextEdit × CallSite) := do
  after.checkWritable
  match ← o.kept s before after with
  | some result => return result
  | none =>
    let call ← after.generate
    return ([⟨s.range, call.text⟩], s.rewritten call)

end Operations

namespace CallSite

def patched (s : CallSite) (patches : List TextEdit) : Text :=
  Id.run (Operations.plain.patched s patches)

def patchTo (s : CallSite) (before after : Action) :
    Except WriteError (List TextEdit × CallSite) :=
  (Operations.plain.patchTo s before after).run.run

end CallSite

end RoutineSync
