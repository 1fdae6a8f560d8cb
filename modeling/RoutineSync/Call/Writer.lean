import RoutineSync.Call.Shape
/-!
Writing a call: the text, and the range of every argument in it.
-/
set_option autoImplicit false

namespace RoutineSync

structure CallText where
  text : Text
  params : NameMap ByteRange
deriving DecidableEq

namespace CallShape

/-- How many parameters are written: up to the last one that is required or has a value. -/
def writtenCount (s : CallShape) (values : NameMap Value) : Nat :=
  let written (p : Param) : Bool := !p.optional || values.contains p.name
  (s.params.reverse.dropWhile fun p => !written p).length

/-- Writes one fragment after the text so far; none where a written parameter has neither a value
nor a default. A separator is written if the fragment after it is. -/
def writeFragment (s : CallShape) (count : Nat) (values : NameMap Value) (next : Option Fragment)
    (call : CallText) : Fragment → Option CallText
  | .literal t => some { call with text := call.text ++ t.toList }
  | .separator =>
    match next with
    | some (.param i) =>
      some (if i < count then { call with text := call.text ++ [',', ' '] } else call)
    | _ => some call
  | .param i =>
    if i < count then do
      let p ← s.params[i]?
      let value ← (values.get? p.name).or p.default
      let text := call.text ++ value.source
      return ⟨text, call.params.insert p.name ⟨call.text.size, text.size⟩⟩
    else some call

def writeFragments (s : CallShape) (count : Nat) (values : NameMap Value) :
    CallText → List Fragment → Option CallText
  | call, [] => some call
  | call, f :: fs => do
    let call ← s.writeFragment count values fs.head? call f
    s.writeFragments count values call fs

/-- The call for the given values. Parameters after the last one present are left out, and absent
ones before it are written with their defaults. -/
def write? (s : CallShape) (values : NameMap Value) : Option CallText :=
  s.writeFragments (s.writtenCount values) values ⟨[], []⟩ s.fragments

def writeAction? (s : CallShape) (a : Action) : Option CallText :=
  if a.kind = s.kind then s.write? a.params else none

end CallShape

end RoutineSync
