/-!
Text is a list of characters; places in it are counted in UTF-8 bytes. A place inside a character
or past the end is no place: cutting there gives `none`.
-/
set_option autoImplicit false

namespace RoutineSync

abbrev Text := List Char

namespace Text

/-- Bytes that a text takes in UTF-8. -/
def size : Text → Nat
  | [] => 0
  | c :: r => c.utf8Size + size r

@[simp] theorem size_nil : size [] = 0 := rfl

@[simp] theorem size_cons (c : Char) (r : Text) : size (c :: r) = c.utf8Size + size r := rfl

@[simp] theorem size_append (a b : Text) : size (a ++ b) = size a + size b := by
  induction a with
  | nil => simp
  | cons c r ih => simp [ih, Nat.add_assoc]

/-- The text before byte `n` and the text from it on. -/
def cut? : Text → Nat → Option (Text × Text)
  | t, 0 => some ([], t)
  | [], _ + 1 => none
  | c :: r, n + 1 =>
    if c.utf8Size ≤ n + 1 then
      (cut? r (n + 1 - c.utf8Size)).map fun (a, b) => (c :: a, b)
    else none

theorem append_of_cut? {t a b : Text} {n : Nat} (h : cut? t n = some (a, b)) :
    a ++ b = t ∧ size a = n := by
  fun_induction cut? t n generalizing a b with
  | case1 t => simp only [Option.some.injEq, Prod.mk.injEq] at h; simp [← h.1, ← h.2]
  | case2 => simp at h
  | case3 c r n hc ih =>
    obtain ⟨⟨x, y⟩, hx, hy⟩ := Option.map_eq_some_iff.1 h
    simp only [Prod.mk.injEq] at hy
    obtain ⟨rfl, rfl⟩ := hy
    have := ih hx
    simp [this.1, this.2]
    omega
  | case4 => simp at h

theorem cut?_append (a b : Text) : cut? (a ++ b) (size a) = some (a, b) := by
  induction a with
  | nil => cases b <;> rfl
  | cons c r ih =>
    obtain ⟨k, hk⟩ : ∃ k, c.utf8Size = k + 1 := ⟨c.utf8Size - 1, by have := c.utf8Size_pos; omega⟩
    have hs : size (c :: r) = (k + size r) + 1 := by simp [hk]; omega
    rw [hs, List.cons_append, cut?, if_pos (by omega)]
    have : k + size r + 1 - c.utf8Size = size r := by omega
    rw [this, ih]
    rfl

/-- Whether byte `n` starts a character or ends the text. -/
def isPlace (t : Text) (n : Nat) : Bool := (cut? t n).isSome

/-- The text from byte `start` up to byte `stop`; none unless both are places in order. -/
def slice? (t : Text) (start stop : Nat) : Option Text :=
  if start ≤ stop then do
    let (_, b) ← cut? t start
    let (a, _) ← cut? b (stop - start)
    return a
  else none

/-- Like `slice?`; a range that does not fit reads as no text. -/
def slice (t : Text) (start stop : Nat) : Text := (slice? t start stop).getD []

theorem slice?_append (a b c : Text) :
    slice? (a ++ b ++ c) (size a) (size a + size b) = some b := by
  simp only [slice?, Nat.le_add_right, if_true, List.append_assoc, cut?_append, Option.bind_eq_bind,
    Option.bind_some, Nat.add_sub_cancel_left]
  rfl

/-- The text before byte `n`; the whole text where `n` is no place. -/
def before (t : Text) (n : Nat) : Text := ((cut? t n).map (·.1)).getD t

/-- The text from byte `n` on; no text where `n` is no place. -/
def after (t : Text) (n : Nat) : Text := ((cut? t n).map (·.2)).getD []

theorem before_append_after (t : Text) (n : Nat) : before t n ++ after t n = t := by
  unfold before after
  cases h : cut? t n with
  | none => simp
  | some p => exact (append_of_cut? h).1

theorem size_before {t : Text} {n : Nat} (h : t.isPlace n = true) : (t.before n).size = n := by
  obtain ⟨⟨a, b⟩, hc⟩ := Option.isSome_iff_exists.1 h
  simp [before, hc, (append_of_cut? hc).2]

theorem size_after {t : Text} {n : Nat} (h : t.isPlace n = true) :
    n + (t.after n).size = t.size := by
  have := congrArg size (before_append_after t n)
  rwa [size_append, size_before h] at this

def afterPrefix? : Text → Text → Option Text
  | [], t => some t
  | _ :: _, [] => none
  | p :: ps, c :: r => if p = c then afterPrefix? ps r else none

theorem afterPrefix?_eq_some_iff {lead t r : Text} :
    afterPrefix? lead t = some r ↔ t = lead ++ r := by
  fun_induction afterPrefix? lead t with
  | case1 t => simp [eq_comm]
  | case2 => simp
  | case3 ps c r' ih => simp [ih]
  | case4 p ps c r' h => simp; intro h'; exact absurd h'.symm h

def suffixes : Text → List Text
  | [] => [[]]
  | c :: r => (c :: r) :: suffixes r

theorem getElem?_suffixes_append (a b : Text) : (suffixes (a ++ b))[a.length]? = some b := by
  induction a with
  | nil => cases b <;> simp [suffixes]
  | cons c r ih => simpa [suffixes] using ih

theorem nil_mem_suffixes (t : Text) : [] ∈ suffixes t := by
  induction t <;> simp_all [suffixes]

end Text

/-- A range of bytes, `start` included and `stop` not. -/
structure ByteRange where
  start : Nat
  stop : Nat
deriving DecidableEq, Repr

end RoutineSync
