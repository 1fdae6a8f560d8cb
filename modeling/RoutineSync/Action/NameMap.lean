/-!
Maps from names, kept in the order of the names.
-/
set_option autoImplicit false

namespace RoutineSync

/-- Entries in strictly increasing order of their names. -/
abbrev NameMap (α : Type) := List (String × α)

namespace NameMap
variable {α : Type}

def get? (name : String) : NameMap α → Option α
  | [] => none
  | (n, a) :: r => if n = name then some a else get? name r

def contains (m : NameMap α) (name : String) : Bool := (m.get? name).isSome

/-- Puts an entry at its place, instead of one with the same name. -/
def insert (name : String) (a : α) : NameMap α → NameMap α
  | [] => [(name, a)]
  | (n, b) :: r =>
    if name < n then (name, a) :: (n, b) :: r
    else if n = name then (name, a) :: r
    else (n, b) :: insert name a r

def erase (name : String) (m : NameMap α) : NameMap α := m.filter fun e => e.1 != name

def ofList (entries : List (String × α)) : NameMap α :=
  entries.foldl (fun m e => insert e.1 e.2 m) []

def names (m : NameMap α) : List String := m.map (·.1)

def mapValues {β : Type} (f : α → β) (m : NameMap α) : NameMap β := m.map fun e => (e.1, f e.2)

theorem get?_insert_self (name : String) (a : α) (m : NameMap α) :
    get? name (insert name a m) = some a := by
  induction m with
  | nil => simp [insert, get?]
  | cons e r ih =>
    obtain ⟨n, b⟩ := e
    simp only [insert]
    split
    · simp [get?]
    · split
      · simp [get?]
      · rename_i h; simp [get?, h, ih]

theorem get?_insert_of_ne {name other : String} (h : other ≠ name) (a : α) (m : NameMap α) :
    get? other (insert name a m) = get? other m := by
  induction m with
  | nil => simp [insert, get?, Ne.symm h]
  | cons e r ih =>
    obtain ⟨n, b⟩ := e
    simp only [insert]
    split
    · simp [get?, Ne.symm h]
    · split
      · rename_i hn; simp [get?, hn, Ne.symm h]
      · simp [get?, ih]

end NameMap

end RoutineSync
