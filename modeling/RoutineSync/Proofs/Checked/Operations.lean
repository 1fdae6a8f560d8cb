import RoutineSync.Proofs.Operations
import RoutineSync.Proofs.Text.Landing
/-!
Operations that are only good for some arguments, checked: `none` where one is asked for something
that is not there. A program that uses them stops where its plain reading would go astray.
-/
set_option autoImplicit false

namespace RoutineSync.Text

theorem le_size_of_isPlace {t : Text} {n : Nat} (h : t.isPlace n = true) : n ≤ t.size := by
  rw [← size_after h]
  exact Nat.le_add_right _ _

theorem newlinesBefore_mono (t : Text) {m n : Nat} (h : m ≤ n) :
    t.newlinesBefore m ≤ t.newlinesBefore n := by
  induction t generalizing m n with
  | nil => cases m <;> cases n <;> exact Nat.le_refl _
  | cons c r ih =>
    cases m with
    | zero => exact Nat.zero_le _
    | succ m =>
      obtain ⟨n, rfl⟩ : ∃ k, n = k + 1 := ⟨n - 1, by omega⟩
      exact Nat.add_le_add_left (ih (by omega)) _

/-- A line behind a newline starts behind the first byte. -/
theorem lineOffset_pos {t : Text} (h : t ≠ []) (k : Nat) : 0 < t.lineOffset (k + 1) := by
  cases t with
  | nil => exact absurd rfl h
  | cons c r => exact Nat.lt_of_lt_of_le c.utf8Size_pos (Nat.le_add_right _ _)

end RoutineSync.Text

namespace RoutineSync.Checked

def sub (a b : Nat) : Option Nat := if b ≤ a then some (a - b) else none

/-- A place moved to another that can be counted, without holding it back. -/
def move (place : Nat) (delta : Int) : Option Nat :=
  if 0 ≤ place + delta ∧ place + delta ≤ maxPlace then some (place + delta).toNat else none

/-- Whether a place is between characters, asked of places inside the text only. -/
def boundary (t : Text) (place : Nat) : Option Bool :=
  if place ≤ t.size then some (t.isPlace place) else none

/-- Whether a change cuts between characters. Where it ends is compared with the text first. -/
def fits (c : TextChange) (t : Text) : Option Bool :=
  if c.stop ≤ t.size then do
    let start ← boundary t c.offset
    let stop ← boundary t c.stop
    return start && stop
  else return false

def replace (e : TextEdit) (t : Text) : Option Text := do
  let _ ← t.slice? e.range.start e.range.stop
  return t.before e.range.start ++ e.text ++ t.after e.range.stop

/-- Makes edits at once: from place `copied` on, what stands before the next edit is copied. -/
def rebuild (t : Text) : Nat → List TextEdit → Option Text
  | copied, [] => t.slice? copied t.size
  | copied, e :: es => do
    let before ← t.slice? copied e.range.start
    let _ ← sub e.range.stop e.range.start
    let behind ← rebuild t e.range.stop es
    return before ++ e.text ++ behind

def lineAt (t : Text) (place : Nat) : Option Nat :=
  if place ≤ t.size then some (t.newlinesBefore place) else none

/-- Where a line starts; the line after the last one starts at the end of the text. -/
def startOf (t : Text) (line : Nat) : Option Nat :=
  if line ≤ t.newlinesBefore t.size + 1 then some (t.lineOffset line) else none

def access (t : Text) : Access Option where
  size := t.size
  slice := t.slice?
  lineStart place := do startOf t (← lineAt t place)
  lineEnd place := do
    let line ← lineAt t place
    if line < t.newlinesBefore t.size then
      let next ← startOf t (line + 1)
      sub next 1
    else return t.size

def operations : Operations Option where
  sub := sub
  move := move
  get? xs index := if index < xs.length then some xs[index]? else none
  rest xs index := if index ≤ xs.length then some (xs.drop index) else none
  range xs index count :=
    if index + count ≤ xs.length then some ((xs.drop index).take count) else none
  splice s xs := if s.index + s.count ≤ xs.length then some (s.removed xs, s.run xs) else none
  fits := fits
  change c t := rebuild t 0 [⟨⟨c.offset, c.stop⟩, c.text⟩]
  replace := replace
  applyAll es t := rebuild t 0 es
  access := access

theorem sub_eq {a b : Nat} (h : b ≤ a) : sub a b = some (a - b) := if_pos h

/-- A place that stays within what can be counted is not held back. -/
theorem move_eq {place : Nat} {delta : Int} (h : 0 ≤ place + delta) (hn : place + delta ≤ maxPlace) :
    move place delta = some (movePlace place delta) := by
  rw [move, movePlace, if_pos ⟨h, hn⟩]
  congr 1
  omega

theorem fits_eq (c : TextChange) (t : Text) : fits c t = some (c.fits t) := by
  unfold fits
  by_cases h : c.stop ≤ t.size
  · have hstart : c.offset ≤ t.size := Nat.le_trans (Nat.le_add_right _ _) h
    rw [if_pos h, boundary, if_pos hstart, boundary, if_pos h]
    rfl
  · have hstop : t.isPlace c.stop = false := by
      rw [Bool.eq_false_iff]
      exact fun hplace => h (Text.le_size_of_isPlace hplace)
    rw [if_neg h, TextChange.fits, hstop, Bool.and_false]
    rfl

section
variable {t : Text} {i j n : Nat}

theorem slice?_eq (hi : t.isPlace i = true) (hj : t.isPlace j = true) (hij : i ≤ j) :
    t.slice? i j = some (t.slice i j) := by
  obtain ⟨a, b, rfl, rfl⟩ := Text.isPlace_iff.1 hi
  obtain ⟨c, d, heq, rfl⟩ := Text.isPlace_iff.1 hj
  obtain ⟨x, rfl, rfl⟩ := Text.exists_middle heq hij
  have hslice := Text.slice?_append a x d
  rw [List.append_assoc, ← Text.size_append] at hslice
  rw [Text.slice, hslice]
  rfl

theorem lineAt_eq (h : t.isPlace n = true) : lineAt t n = some (t.newlinesBefore n) :=
  if_pos (Text.le_size_of_isPlace h)

theorem lineStart_eq (h : t.isPlace n = true) :
    (access t).lineStart n = some ((Source.byCount t).lineStart n) := by
  have hle := t.newlinesBefore_mono (Text.le_size_of_isPlace h)
  show (lineAt t n >>= startOf t) = _
  rw [lineAt_eq h, Option.bind_eq_bind, Option.bind_some, startOf, if_pos (Nat.le_succ_of_le hle)]
  rfl

theorem lineEnd_eq (h : t.isPlace n = true) :
    (access t).lineEnd n = some ((Source.byCount t).lineEnd n) := by
  show (lineAt t n >>= _) = _
  rw [lineAt_eq h, Option.bind_eq_bind, Option.bind_some]
  by_cases hlast : t.newlinesBefore n < t.newlinesBefore t.size
  · have hne : t ≠ [] := by
      rintro rfl
      exact absurd hlast (Nat.not_lt.2 (Nat.zero_le _))
    rw [if_pos hlast, startOf, if_pos (Nat.succ_le_succ (Nat.le_of_lt hlast)), Option.bind_some,
      sub_eq (Text.lineOffset_pos hne _)]
    simp only [Source.byCount, hlast, if_true]
  · rw [if_neg hlast]
    simp only [Source.byCount, hlast, if_false]
    rfl

theorem reads_access (t : Text) : (access t).Reads t where
  size_eq := rfl
  slice := slice?_eq
  lineStart := lineStart_eq
  lineEnd := lineEnd_eq

end

/-- Edits in order that cut between characters are made. -/
theorem rebuild_eq {p : Nat} {es : List TextEdit} {t : Text} (h : TextEdit.Fit p es t) (u : Text)
    (hu : u.size = p) : rebuild (u ++ t) p es = some (TextEdit.applyFrom p es t) := by
  induction h generalizing u with
  | @nil p t =>
    subst hu
    have hwhole := Text.slice?_append u t []
    rw [List.append_nil, ← Text.size_append] at hwhole
    exact hwhole
  | @cons p a b c text es _ ih =>
    subst hu
    have hassoc : u ++ (a ++ b ++ c) = u ++ a ++ (b ++ c) := by simp only [List.append_assoc]
    have hbefore := Text.slice?_append u a (b ++ c)
    have hbehind := ih (u ++ a ++ b) (by simp only [Text.size_append])
    rw [show u ++ a ++ b ++ c = u ++ (a ++ b ++ c) by simp only [List.append_assoc]] at hbehind
    rw [← hassoc] at hbefore
    rw [TextEdit.applyFrom_cons, rebuild]
    dsimp only
    rw [hbefore, sub_eq (Nat.le_add_right _ _), hbehind]
    rfl

theorem exists_cut {c : TextChange} {t : Text} (h : c.fits t = true) :
    ∃ a b d : Text, t = a ++ b ++ d ∧ a.size = c.offset ∧ a.size + b.size = c.stop := by
  simp only [TextChange.fits, Bool.and_eq_true, Text.isPlace_iff] at h
  obtain ⟨⟨u, v, ht, hu⟩, u', w, rfl, hu'⟩ := h
  obtain ⟨m, rfl, rfl⟩ := Text.exists_middle ht.symm (by rw [hu, hu']; exact Nat.le_add_right _ _)
  exact ⟨u, m, w, rfl, hu, by rw [← Text.size_append, hu']⟩

theorem change_eq {c : TextChange} {t : Text} (h : c.fits t = true) :
    rebuild t 0 [⟨⟨c.offset, c.stop⟩, c.text⟩] = some (c.apply t) := by
  obtain ⟨a, b, d, rfl, ha, hb⟩ := exists_cut h
  let e : TextEdit := ⟨⟨c.offset, c.stop⟩, c.text⟩
  have hchange : e.toChange = c := by
    simp only [e, TextEdit.toChange, TextChange.stop, Nat.add_sub_cancel_left]
  have hfit : TextEdit.Fit 0 [e] (a ++ b ++ d) := by
    refine TextEdit.fit_of_pairwise (fun f hf => ?_) (List.pairwise_singleton _ _)
    rw [List.mem_singleton.1 hf]
    exact ⟨a, b, d, rfl, by rw [Nat.zero_add, hb, ha]⟩
  have happly := hfit.foldr_apply [] rfl
  rw [List.foldr_cons, List.foldr_nil, hchange] at happly
  exact (rebuild_eq hfit [] rfl).trans (congrArg some happly.symm)

theorem replace_eq {e : TextEdit} {t : Text} (h : e.toChange.fits t = true)
    (hle : e.range.start ≤ e.range.stop) : replace e t = some (e.toChange.apply t) := by
  have hstop : e.toChange.stop = e.range.stop := Nat.add_sub_cancel' hle
  obtain ⟨hi, hj⟩ : t.isPlace e.range.start = true ∧ t.isPlace e.toChange.stop = true :=
    Bool.and_eq_true_iff.1 h
  rw [hstop] at hj
  rw [replace, slice?_eq hi hj hle, TextChange.apply, hstop]
  rfl

theorem faithful : operations.Faithful where
  sub := sub_eq
  move := move_eq
  get? h := if_pos h
  rest h := if_pos h
  range h := if_pos h
  splice h := if_pos h
  fits := fits_eq
  change := change_eq
  replace := replace_eq
  applyAll h := rebuild_eq h [] rfl
  access := reads_access

end RoutineSync.Checked
