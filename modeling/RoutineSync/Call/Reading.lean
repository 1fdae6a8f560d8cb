import RoutineSync.Call.Shape
/-!
What is found where a call, or the rest of one, is looked for at a place of a text. A column holds
what a reader finds at all places of a text, so that no place is looked at twice.
-/
set_option autoImplicit false

namespace RoutineSync

structure Argument where
  param : Param
  literal : Text
  /-- The call from the argument on. -/
  onward : Text

structure CallMatch where
  text : Text
  args : List Argument

namespace CallMatch

def empty : CallMatch := ⟨[], []⟩

def after (lead : Text) (m : CallMatch) : CallMatch := { m with text := lead ++ m.text }

def afterArgument (p : Param) (literal : Text) (m : CallMatch) : CallMatch :=
  let text := literal ++ m.text
  ⟨text, ⟨p, literal, text⟩ :: m.args⟩

def argumentRange (m : CallMatch) (a : Argument) : ByteRange :=
  let start := m.text.size - a.onward.size
  ⟨start, start + a.literal.size⟩

/-- The values of the arguments and their ranges in the call; none where a literal has no value. -/
def extract? (m : CallMatch) : Option (NameMap Value × NameMap ByteRange) :=
  m.args.foldlM
    (fun (values, ranges) a => do
      let v ← a.param.type.read? a.literal
      return (values.insert a.param.name v, ranges.insert a.param.name (m.argumentRange a)))
    ([], [])

end CallMatch

/-- Looks for the rest of a call at the start of a text. -/
abbrev Reader := Text → Option CallMatch

def Reader.stop : Reader := fun _ => some .empty

def Reader.Sound (k : Reader) : Prop := ∀ t m, k t = some m → m.text <+: t

theorem Reader.sound_stop : stop.Sound := by
  intro t m h
  cases h
  exact List.nil_prefix

theorem CallMatch.after_isPrefix {lead r : Text} {m : CallMatch} (h : m.text <+: r) :
    (m.after lead).text <+: lead ++ r := List.prefix_append_right_inj lead |>.2 h

/-- What is found at each place of a text, the end included. It is only looked for where it is asked
for, and then once. -/
abbrev Column := List (Thunk (Option CallMatch))

def Reader.column (k : Reader) (t : Text) : Column := (Text.suffixes t).map fun s => .mk fun _ => k s

@[simp] theorem Reader.column_nil (k : Reader) : k.column [] = [.mk fun _ => k []] := rfl

@[simp] theorem Reader.column_cons (k : Reader) (c : Char) (r : Text) :
    k.column (c :: r) = (.mk fun _ => k (c :: r)) :: k.column r := rfl

def Column.at (col : Column) (count : Nat) : Option CallMatch := col[count]?.bind Thunk.get

theorem Reader.column_at (k : Reader) (a b : Text) : (k.column (a ++ b)).at a.length = k b := by
  simp [Reader.column, Column.at, Text.getElem?_suffixes_append, Thunk.get]

end RoutineSync
