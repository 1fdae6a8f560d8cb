import RoutineSync.Call.Reading
/-!
Gaps between the tokens of a call: blanks, line comments with their newline, and block comments. A
block comment ends at its first closing mark, but where nothing that is wanted follows there, it is
read on to a later one. No token starts with a blank or a slash, so a gap goes on as long as it can.
-/
set_option autoImplicit false

namespace RoutineSync.Gap

inductive State where
  | between
  | line
  | block
deriving DecidableEq

def read (k : Reader) : State → Reader
  | .between, '/' :: '/' :: r => (read k .line r).map (.after ['/', '/'])
  | .between, '/' :: '*' :: r => (read k .block r).map (.after ['/', '*'])
  | .between, c :: r =>
    if Text.isBlank c then (read k .between r).map (.after [c]) else k (c :: r)
  | .between, [] => k []
  | .line, c :: r => (read k (if c = '\n' then .between else .line) r).map (.after [c])
  | .block, '*' :: '/' :: r =>
    ((read k .between r).map (.after ['*', '/'])).or
      ((read k .block ('/' :: r)).map (.after ['*']))
  | .block, c :: r => (read k .block r).map (.after [c])
  | .line, [] | .block, [] => none

theorem sound_map {r lead : Text} {k : Reader} (h : ∀ m, k r = some m → m.text <+: r)
    {m : CallMatch} (hm : (k r).map (.after lead) = some m) : m.text <+: lead ++ r := by
  obtain ⟨n, hn, rfl⟩ := Option.map_eq_some_iff.1 hm
  exact CallMatch.after_isPrefix (h n hn)

theorem sound_read {k : Reader} (hk : k.Sound) (s : State) : (read k s).Sound := by
  intro t
  fun_induction read k s t with
  | case1 r ih => exact fun m h => sound_map ih h
  | case2 r ih => exact fun m h => sound_map ih h
  | case3 c r _ _ _ ih => exact fun m h => sound_map ih h
  | case4 c r => exact hk _
  | case5 => exact hk _
  | case6 c r ih => exact fun m h => sound_map ih h
  | case7 r ih1 ih2 =>
    intro m h
    rcases Option.or_eq_some_iff.1 h with h | ⟨_, h⟩
    · exact sound_map ih1 h
    · exact sound_map ih2 h
  | case8 c r _ ih => exact fun m h => sound_map ih h
  | case9 => simp
  | case10 => simp

structure Ends where
  between : Thunk (Option CallMatch)
  line : Thunk (Option CallMatch)
  block : Thunk (Option CallMatch)

def Ends.none : Ends := ⟨.pure .none, .pure .none, .pure .none⟩

def Ends.ofReader (k : Reader) (t : Text) : Ends :=
  ⟨.mk fun _ => read k .between t, .mk fun _ => read k .line t, .mk fun _ => read k .block t⟩

/-- What is found from the place of `c`, given what is found `here` where no gap stands, and from the
next place and the second one. -/
def Ends.before (c : Char) (r : Text) (here : Thunk (Option CallMatch)) (next second : Ends) :
    Ends where
  between :=
    if Text.isBlank c then next.between.map (·.map (.after [c]))
    else
      match c, r with
      | '/', '/' :: _ => second.line.map (·.map (.after ['/', '/']))
      | '/', '*' :: _ => second.block.map (·.map (.after ['/', '*']))
      | _, _ => here
  line := (if c = '\n' then next.between else next.line).map (·.map (.after [c]))
  block :=
    match c, r with
    | '*', '/' :: _ =>
      .mk fun _ => (second.between.get.map (.after ['*', '/'])).orElse fun _ =>
        next.block.get.map (.after [c])
    | _, _ => next.block.map (·.map (.after [c]))

/-- What is found from each place of a text, given what is found where no gap stands. -/
def table : Text → Column → List Ends
  | [], here => [{ Ends.none with between := here.headD (.pure none) }]
  | c :: r, here =>
    let later := table r here.tail
    let next := later.head?.getD .none
    .before c r (here.headD (.pure none)) next (later.tail.head?.getD next) :: later

theorem before_ofReader (k : Reader) (c : Char) (r : Text) :
    Ends.before c r (.mk fun _ => k (c :: r)) (.ofReader k r) (.ofReader k r.tail)
      = .ofReader k (c :: r) := by
  simp only [Ends.before, Ends.ofReader, Ends.mk.injEq]
  refine ⟨?_, ?_, ?_⟩ <;> ext1
  · split
    · rename_i h
      have hc : c ≠ '/' := by rintro rfl; revert h; decide
      simp only [Thunk.get]
      rw [read, if_pos h] <;> first | rfl | exact fun _ hs => absurd hs hc
    · rename_i h
      split
      · rfl
      · rfl
      · rename_i h1 h2
        simp only [Thunk.get]
        rw [read, if_neg h]
        · exact h1
        · exact h2
  · simp only [Thunk.get]
    rw [read]; split <;> rfl
  · split
    · simp only [Thunk.get]
      rw [read, List.tail_cons, Option.orElse_eq_or]
    · rename_i h
      simp only [Thunk.get]
      rw [read]; exact rfl; exact h

/-- The table is only a way to share work. -/
theorem table_column (k : Reader) (t : Text) :
    table t (k.column t) = (Text.suffixes t).map (Ends.ofReader k) := by
  induction t with
  | nil => rfl
  | cons c r ih =>
    rw [table, Reader.column_cons, List.tail_cons, ih]
    simp only [Text.suffixes, List.map_cons, List.cons.injEq, and_true, ← before_ofReader k c r]
    cases r with
    | nil => rfl
    | cons d r => cases r <;> rfl

def column (t : Text) (here : Column) : Column := (table t here).map (·.between)

theorem column_column (k : Reader) (t : Text) :
    column t (k.column t) = Reader.column (read k .between) t := by
  rw [column, table_column]
  simp [Reader.column, Ends.ofReader]

end RoutineSync.Gap
