import RoutineSync.Text.Change
/-!
Places as splits of a text: a place of `a ++ b` is the size of `a`, and cutting there gives `a` and
`b` back.
-/
set_option autoImplicit false

namespace RoutineSync.Text

theorem size_eq_zero_iff {t : Text} : size t = 0 ↔ t = [] := by
  cases t with
  | nil => simp
  | cons c r =>
    have := c.utf8Size_pos
    simp
    omega

theorem size_pos_of_ne_nil {t : Text} (h : t ≠ []) : 0 < size t :=
  Nat.pos_of_ne_zero fun h0 => h (size_eq_zero_iff.1 h0)

theorem append_inj_of_size {a b c d : Text} (h : a ++ b = c ++ d) (hs : size a = size c) :
    a = c ∧ b = d := by
  have ha := cut?_append a b
  have hc := cut?_append c d
  rw [h, hs, hc] at ha
  simp only [Option.some.injEq, Prod.mk.injEq] at ha
  exact ⟨ha.1.symm, ha.2.symm⟩

/-- Of two splits of a text, the later one cuts the second part of the earlier one. -/
theorem exists_middle {a b c d : Text} (h : a ++ b = c ++ d) (hs : size a ≤ size c) :
    ∃ m, c = a ++ m ∧ b = m ++ d := by
  rcases List.append_eq_append_iff.1 h with ⟨m, rfl, rfl⟩ | ⟨m, rfl, rfl⟩
  · exact ⟨m, rfl, rfl⟩
  · have hm : m = [] := by
      rw [← size_eq_zero_iff]
      simp only [size_append] at hs
      omega
    exact ⟨[], by simp [hm], by simp [hm]⟩

theorem cut?_eq_some_iff {t a b : Text} {n : Nat} :
    cut? t n = some (a, b) ↔ t = a ++ b ∧ size a = n := by
  constructor
  · intro h
    obtain ⟨h1, h2⟩ := append_of_cut? h
    exact ⟨h1.symm, h2⟩
  · rintro ⟨rfl, rfl⟩
    exact cut?_append a b

theorem isPlace_iff {t : Text} {n : Nat} :
    t.isPlace n = true ↔ ∃ a b, t = a ++ b ∧ size a = n := by
  simp only [isPlace, Option.isSome_iff_exists, Prod.exists, cut?_eq_some_iff]

@[simp] theorem before_append (a b : Text) : before (a ++ b) (size a) = a := by
  simp [before, cut?_append]

@[simp] theorem after_append (a b : Text) : after (a ++ b) (size a) = b := by
  simp [after, cut?_append]

def StandsAt (t : Text) (i : Nat) (x : Text) : Prop := ∃ a b, t = a ++ x ++ b ∧ size a = i

theorem StandsAt.le_size {t x : Text} {i : Nat} (h : t.StandsAt i x) : i + size x ≤ size t := by
  obtain ⟨a, b, rfl, rfl⟩ := h
  simp only [size_append]
  omega

theorem slice?_eq_some_iff {t x : Text} {i j : Nat} :
    t.slice? i j = some x ↔ t.StandsAt i x ∧ i + size x = j := by
  constructor
  · intro h
    unfold slice? at h
    split at h
    · rename_i hij
      simp only [Option.bind_eq_bind, Option.bind_eq_some_iff, Prod.exists, cut?_eq_some_iff,
        Option.pure_def, Option.some.injEq] at h
      obtain ⟨a, b, ⟨ht, ha⟩, x', d, ⟨hb, hx⟩, rfl⟩ := h
      exact ⟨⟨a, d, by rw [ht, hb, List.append_assoc], ha⟩, by omega⟩
    · simp at h
  · rintro ⟨⟨a, b, rfl, rfl⟩, rfl⟩
    exact slice?_append a x b

theorem slice_append (a x b : Text) : slice (a ++ x ++ b) (size a) (size a + size x) = x := by
  rw [slice, slice?_append, Option.getD_some]

theorem StandsAt.append {t x : Text} {i : Nat} (h : t.StandsAt i x) (u v : Text) :
    StandsAt (u ++ t ++ v) (size u + i) x := by
  obtain ⟨a, b, rfl, rfl⟩ := h
  exact ⟨u ++ a, b ++ v, by simp [List.append_assoc], size_append u a⟩

theorem StandsAt.trans {t x y : Text} {i j : Nat} (h : t.StandsAt i x) (hy : x.StandsAt j y) :
    t.StandsAt (i + j) y := by
  obtain ⟨a, b, rfl, rfl⟩ := h
  exact hy.append a b

theorem StandsAt.of_left {u v x : Text} {i : Nat} (h : (u ++ v).StandsAt i x)
    (hi : i + size x ≤ size u) : u.StandsAt i x := by
  obtain ⟨a, b, ht, rfl⟩ := h
  obtain ⟨m, rfl, -⟩ := exists_middle ht.symm (by rw [size_append]; exact hi)
  exact ⟨a, m, rfl, rfl⟩

theorem StandsAt.of_right {u v x : Text} {i : Nat} (h : (u ++ v).StandsAt i x)
    (hi : size u ≤ i) : v.StandsAt (i - size u) x := by
  obtain ⟨a, b, ht, rfl⟩ := h
  rw [List.append_assoc] at ht
  obtain ⟨m, rfl, rfl⟩ := exists_middle ht hi
  exact ⟨m, b, by rw [List.append_assoc], by rw [size_append]; omega⟩

/-- A text whose last character is not in the second part of another ends in the first one. -/
theorem StandsAt.le_of_getLast? {u v x : Text} {i : Nat} {c : Char} (h : (u ++ v).StandsAt i x)
    (hx : x.getLast? = some c) (hc : c ∉ v) : i + size x ≤ size u := by
  obtain ⟨a, b, ht, rfl⟩ := h
  refine Nat.le_of_not_lt fun hlt => ?_
  obtain ⟨m, hm, rfl⟩ := exists_middle ht (by rw [size_append]; omega)
  have hne : m ≠ [] := by
    rintro rfl
    have := congrArg size hm
    simp only [size_append, size_nil] at this
    omega
  obtain ⟨d, hd⟩ := Option.isSome_iff_exists.1 (List.getLast?_isSome.2 hne)
  have hlast := congrArg List.getLast? hm
  rw [List.getLast?_append, List.getLast?_append, hx, hd] at hlast
  obtain rfl : c = d := Option.some.inj hlast
  exact hc (List.mem_append_left _ (List.mem_of_getLast? hd))

theorem StandsAt.le_of_head? {u v x : Text} {i : Nat} {c : Char} (h : (u ++ v).StandsAt i x)
    (hx : x.head? = some c) (hc : c ∉ u) : size u ≤ i := by
  obtain ⟨a, b, ht, rfl⟩ := h
  refine Nat.le_of_not_lt fun hlt => ?_
  rw [List.append_assoc] at ht
  obtain ⟨m, rfl, hm⟩ := exists_middle ht.symm (by omega)
  have hne : m ≠ [] := by
    rintro rfl
    rw [List.append_nil] at hlt
    exact Nat.lt_irrefl _ hlt
  obtain ⟨d, hd⟩ := Option.isSome_iff_exists.1 (List.isSome_head?.2 hne)
  have hfirst := congrArg List.head? hm
  rw [List.head?_append, List.head?_append, hx, hd] at hfirst
  obtain rfl : c = d := Option.some.inj hfirst
  exact hc (List.mem_append_right _ (List.mem_of_head? hd))

end RoutineSync.Text
