import RoutineSync.Operations
/-!
Invertible changes of a list. A command carries what it needs to be undone, and takes it from the
list when it is applied.
-/
set_option autoImplicit false

namespace RoutineSync

inductive Direction where
  | back | forth
deriving DecidableEq

def Direction.opposite : Direction → Direction
  | .back => .forth
  | .forth => .back

/-- A change of a list. `replaced` and `removed` are filled in when the command is applied. -/
inductive Command (α : Type) where
  | append (elements : List α)
  | insert (index : Nat) (elements : List α)
  | replace (index count : Nat) (elements replaced : List α)
  | remove (index count : Nat) (removed : List α)
deriving DecidableEq

namespace Command
variable {α : Type}

def forward (len : Nat) : Command α → Splice α
  | .append elements => ⟨len, 0, elements⟩
  | .insert index elements => ⟨index, 0, elements⟩
  | .replace index count elements _ => ⟨index, count, elements⟩
  | .remove index count _ => ⟨index, count, []⟩

def inverse (len : Nat) : Command α → Splice α
  | .append elements => ⟨len - elements.length, elements.length, []⟩
  | .insert index elements => ⟨index, elements.length, []⟩
  | .replace index _ elements replaced => ⟨index, elements.length, replaced⟩
  | .remove index _ removed => ⟨index, 0, removed⟩

def splice (d : Direction) (len : Nat) (c : Command α) : Splice α :=
  match d with
  | .back => c.inverse len
  | .forth => c.forward len

end Command

namespace Operations
variable {α : Type} {m : Type → Type} [Monad m] (o : Operations m) (xs : List α)

def exchange (s : Splice α) : ExceptT RangeError m (List α × List α) := do
  checkRange s.index s.count xs.length
  o.splice s xs

def apply : Command α → ExceptT RangeError m (Command α × List α)
  | .append elements => return (.append elements, xs ++ elements)
  | .insert index elements => do
    let (_, ys) ← o.exchange xs ⟨index, 0, elements⟩
    return (.insert index elements, ys)
  | .replace index count elements _ => do
    let (replaced, ys) ← o.exchange xs ⟨index, count, elements⟩
    return (.replace index count elements replaced, ys)
  | .remove index count _ => do
    let (removed, ys) ← o.exchange xs ⟨index, count, []⟩
    return (.remove index count removed, ys)

/-- Undoes the command. The elements taken out again are kept in it, so that changes made to them
since survive a later `apply`. -/
def revert : Command α → ExceptT RangeError m (Command α × List α)
  | .append elements =>
    if elements.length ≤ xs.length then do
      let index ← o.sub xs.length elements.length
      let back ← o.rest xs index
      return (.append back, ← o.range xs 0 index)
    else throw ⟨0, elements.length, xs.length⟩
  | .insert index elements => do
    let (back, ys) ← o.exchange xs ⟨index, elements.length, []⟩
    return (.insert index back, ys)
  | .replace index count elements replaced => do
    let (back, ys) ← o.exchange xs ⟨index, elements.length, replaced⟩
    return (.replace index count back replaced, ys)
  | .remove index count removed => do
    let (_, ys) ← o.exchange xs ⟨index, 0, removed⟩
    return (.remove index count removed, ys)

def step (d : Direction) (c : Command α) : ExceptT RangeError m (Command α × List α) :=
  match d with
  | .back => o.revert xs c
  | .forth => o.apply xs c

end Operations

namespace Command
variable {α : Type}

def step (d : Direction) (xs : List α) (c : Command α) : Except RangeError (Command α × List α) :=
  (Operations.plain.step xs d c).run.run

def apply (c : Command α) (xs : List α) : Except RangeError (Command α × List α) := c.step .forth xs

def revert (c : Command α) (xs : List α) : Except RangeError (Command α × List α) := c.step .back xs

end Command

end RoutineSync
