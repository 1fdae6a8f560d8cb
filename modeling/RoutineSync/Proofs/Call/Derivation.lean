import RoutineSync.Call.Matcher
import RoutineSync.Proofs.Call.Literals
/-!
What a call that is found is made of. A derivation says which gaps, tokens and literals its text
consists of, whatever the way in which it was found.
-/
set_option autoImplicit false

namespace RoutineSync

namespace CallMatch

@[simp] theorem after_after (a b : Text) (m : CallMatch) : (m.after a).after b = m.after (b ++ a) := by
  simp [after]

@[simp] theorem text_after (a : Text) (m : CallMatch) : (m.after a).text = a ++ m.text := rfl

@[simp] theorem args_after (a : Text) (m : CallMatch) : (m.after a).args = m.args := rfl

end CallMatch

namespace Gap

/-- Texts that can stand between the tokens of a call. -/
inductive Fills : Text → Prop where
  | nil : Fills []
  | blank {c : Char} {g : Text} : Text.isBlank c = true → Fills g → Fills (c :: g)
  | line {b g : Text} : '\n' ∉ b → Fills g → Fills ('/' :: '/' :: (b ++ '\n' :: g))
  | block {b g : Text} : Fills g → Fills ('/' :: '*' :: (b ++ '*' :: '/' :: g))

/-- What can be left of a gap. -/
def FillsFrom : State → Text → Prop
  | .between, g => Fills g
  | .line, g => ∃ b h, g = b ++ '\n' :: h ∧ '\n' ∉ b ∧ Fills h
  | .block, g => ∃ b h, g = b ++ '*' :: '/' :: h ∧ Fills h

theorem exists_of_read {k : Reader} {s : State} {t : Text} {m : CallMatch}
    (h : read k s t = some m) :
    ∃ g r n, t = g ++ r ∧ FillsFrom s g ∧ k r = some n ∧ m = n.after g := by
  fun_induction read k s t generalizing m with
  | case1 r ih =>
    obtain ⟨n, hn, rfl⟩ := Option.map_eq_some_iff.1 h
    obtain ⟨g, r, n, rfl, ⟨b, g, rfl, hb, hg⟩, hk, rfl⟩ := ih hn
    exact ⟨_, r, n, rfl, .line hb hg, hk, CallMatch.after_after _ _ _⟩
  | case2 r ih =>
    obtain ⟨n, hn, rfl⟩ := Option.map_eq_some_iff.1 h
    obtain ⟨g, r, n, rfl, ⟨b, g, rfl, hg⟩, hk, rfl⟩ := ih hn
    exact ⟨_, r, n, rfl, .block hg, hk, CallMatch.after_after _ _ _⟩
  | case3 c r _ _ hc ih =>
    obtain ⟨n, hn, rfl⟩ := Option.map_eq_some_iff.1 h
    obtain ⟨g, r, n, rfl, hg, hk, rfl⟩ := ih hn
    exact ⟨c :: g, r, n, rfl, .blank hc hg, hk, CallMatch.after_after _ _ _⟩
  | case4 c r => exact ⟨[], c :: r, m, rfl, .nil, h, rfl⟩
  | case5 => exact ⟨[], [], m, rfl, .nil, h, rfl⟩
  | case6 c r ih =>
    obtain ⟨n, hn, rfl⟩ := Option.map_eq_some_iff.1 h
    obtain ⟨g, r, n, rfl, hg, hk, rfl⟩ := ih hn
    refine ⟨c :: g, r, n, rfl, ?_, hk, CallMatch.after_after _ _ _⟩
    by_cases hc : c = '\n'
    · rw [if_pos hc] at hg
      exact ⟨[], g, by rw [hc]; rfl, by simp, hg⟩
    · rw [if_neg hc] at hg
      obtain ⟨b, g, rfl, hb, hg⟩ := hg
      exact ⟨c :: b, g, rfl, by simpa [Ne.symm hc] using hb, hg⟩
  | case7 r ih1 ih2 =>
    rcases Option.or_eq_some_iff.1 h with h | ⟨-, h⟩
    · obtain ⟨n, hn, rfl⟩ := Option.map_eq_some_iff.1 h
      obtain ⟨g, r, n, rfl, hg, hk, rfl⟩ := ih1 hn
      exact ⟨'*' :: '/' :: g, r, n, rfl, ⟨[], g, rfl, hg⟩, hk, CallMatch.after_after _ _ _⟩
    · obtain ⟨n, hn, rfl⟩ := Option.map_eq_some_iff.1 h
      obtain ⟨g, r', n, hr, ⟨b, g', rfl, hg⟩, hk, rfl⟩ := ih2 hn
      exact ⟨'*' :: (b ++ '*' :: '/' :: g'), r', n, by rw [hr]; rfl, ⟨'*' :: b, g', rfl, hg⟩, hk,
        CallMatch.after_after _ _ _⟩
  | case8 c r _ ih =>
    obtain ⟨n, hn, rfl⟩ := Option.map_eq_some_iff.1 h
    obtain ⟨g, r, n, rfl, ⟨b, g, rfl, hg⟩, hk, rfl⟩ := ih hn
    exact ⟨_, r, n, rfl, ⟨c :: b, g, rfl, hg⟩, hk, CallMatch.after_after _ _ _⟩
  | case9 => simp at h
  | case10 => simp at h

end Gap

namespace Piece

def Accepts : Piece → Text → Prop
  | .token w, a => a = w
  | .literal p, a => ∃ t r, p.type.literal? t = some (a, r)

theorem split?_token (w r : Text) : (Piece.token w).split? (w ++ r) = some (w, r) := by
  rw [split?, Text.afterPrefix?_eq_some_iff.2 rfl]
  rfl

theorem accepts_of_split? {p : Piece} {t a r : Text} (h : p.split? t = some (a, r)) :
    p.Accepts a := by
  cases p with
  | token w =>
    obtain ⟨r, -, he⟩ := Option.map_eq_some_iff.1 h
    exact (Prod.mk.inj he).1.symm
  | literal p => exact ⟨t, r, h⟩

theorem exists_of_read {p : Piece} {k : Reader} {t : Text} {m : CallMatch}
    (h : p.read k t = some m) :
    ∃ a r n, t = a ++ r ∧ p.split? t = some (a, r) ∧ k r = some n ∧ m = p.before a n := by
  obtain ⟨⟨a, r⟩, hs, hm⟩ := Option.bind_eq_some_iff.1 h
  obtain ⟨n, hn, rfl⟩ := Option.map_eq_some_iff.1 hm
  exact ⟨a, r, n, (append_of_split? hs).symm, hs, hn, rfl⟩

end Piece

namespace Grammar

/-- The calls, from some place on, that a grammar describes. -/
inductive Derives : Grammar → CallMatch → Prop where
  | done : Derives .done .empty
  | piece {p : Piece} {onward : Grammar} {g a : Text} {m : CallMatch} :
      Gap.Fills g → p.Accepts a → Derives onward m → Derives (.piece p onward) ((p.before a m).after g)
  | first {g h : Grammar} {m : CallMatch} : Derives g m → Derives (.either g h) m
  | second {g h : Grammar} {m : CallMatch} : Derives h m → Derives (.either g h) m

theorem derives_of_read {g : Grammar} {t : Text} {m : CallMatch} (h : g.read .stop t = some m) :
    g.Derives m := by
  induction g generalizing t m with
  | done =>
    cases h
    exact .done
  | piece p onward ih =>
    obtain ⟨g, r, n, rfl, hg, hp, rfl⟩ := Gap.exists_of_read h
    obtain ⟨a, r, n, rfl, hs, hr, rfl⟩ := Piece.exists_of_read hp
    exact .piece hg (Piece.accepts_of_split? hs) (ih hr)
  | either first second ih1 ih2 =>
    rcases Option.or_eq_some_iff.1 h with h | ⟨-, h⟩
    · exact .first (ih1 h)
    · exact .second (ih2 h)

end Grammar

namespace Literal

theorem float?_ne_nil {t a r : Text} (h : float? t = some (a, r)) : a ≠ [] := by
  rw [float?_eq] at h
  obtain ⟨⟨number, x⟩, hn, he⟩ := Option.map_eq_some_iff.1 h
  have hne : number ≠ [] := by
    cases readsNumber_of_number? hn with
    | fraction _ _ _ => exact List.cons_ne_nil _ _
    | point _ hne _ => exact List.append_ne_nil_of_left_ne_nil hne _
    | whole _ hne _ => exact hne
  rw [← (Prod.mk.inj he).1]
  simp [hne]

theorem int?_ne_nil {t a r : Text} (h : int? t = some (a, r)) : a ≠ [] := by
  obtain ⟨sign, x, w, -, -, hne, rfl⟩ := int?_eq_some_iff.1 h
  exact List.append_ne_nil_of_right_ne_nil sign hne

theorem bool?_mem {t a r : Text} (h : bool? t = some (a, r)) :
    a ∈ ["true".toList, "false".toList, "1".toList, "0".toList] := by
  obtain ⟨w, hm, hw⟩ := List.exists_of_findSome?_eq_some h
  obtain ⟨r, -, he⟩ := Option.map_eq_some_iff.1 hw
  have := List.mem_map_of_mem (f := String.toList) hm
  rw [(Prod.mk.inj he).1] at this
  exact this

theorem text?_ne_nil {t a r : Text} (h : text? t = some (a, r)) : a ≠ [] := by
  unfold text? at h
  split at h
  · obtain ⟨⟨x, y⟩, -, he⟩ := Option.map_eq_some_iff.1 h
    rw [← (Prod.mk.inj he).1]
    exact List.cons_ne_nil _ _
  · simp at h

end Literal

theorem ValueType.literal?_ne_nil {type : ValueType} {t a r : Text}
    (h : type.literal? t = some (a, r)) : a ≠ [] := by
  cases type with
  | float => exact Literal.float?_ne_nil h
  | int => exact Literal.int?_ne_nil h
  | bool =>
    rintro rfl
    exact absurd (Literal.bool?_mem h) (by decide)
  | text => exact Literal.text?_ne_nil h

end RoutineSync
