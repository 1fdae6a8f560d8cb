import RoutineSync.Call.Literal
/-!
A literal ends where the next character cannot continue it, so what follows that character does not
matter.
-/
set_option autoImplicit false

namespace RoutineSync

namespace Text

def blankCodes : List Nat :=
  [0x20, 9, 10, 11, 12, 13, 0x85, 0xA0, 0x1680, 0x2000, 0x2001, 0x2002, 0x2003, 0x2004, 0x2005,
    0x2006, 0x2007, 0x2008, 0x2009, 0x200A, 0x2028, 0x2029, 0x202F, 0x205F, 0x3000]

theorem toNat_mem_blankCodes {c : Char} (h : isBlank c = true) : c.toNat ∈ blankCodes := by
  simp only [isBlank, Bool.or_eq_true, Bool.and_eq_true, beq_iff_eq, decide_eq_true_eq] at h
  simp only [blankCodes, List.mem_cons, List.not_mem_nil, or_false]
  omega

def isDigitCode (n : Nat) : Bool :=
  (48 ≤ n && n ≤ 57) || (n > 127 && digitZeros.any fun z => z ≤ n && n < z + 10)

theorem isDigit_eq_false_of_isBlank {c : Char} (h : isBlank c = true) : isDigit c = false := by
  have hall : ∀ n ∈ blankCodes, isDigitCode n = false := by decide
  exact hall _ (toNat_mem_blankCodes h)

end Text

namespace Literal

/-- A splitting that only looks one character past the part that it takes. -/
def Local (f : Text → Text × Text) : Prop :=
  ∀ (t a : Text) (d : Char) (r : Text), f t = (a, d :: r) → ∀ r', f (a ++ d :: r') = (a, d :: r')

theorem Local.append {f : Text → Text × Text} (hf : Local f) {t a x : Text} {d : Char} {r : Text}
    (h : f t = (a, x ++ d :: r)) (r' : Text) : f (a ++ (x ++ d :: r')) = (a, x ++ d :: r') := by
  cases x with
  | nil => exact hf t a d r h r'
  | cons e x => exact hf t a e _ h _

theorem local_minus : Local minus := by
  intro t a d r h r'
  unfold minus at h
  split at h
  · simp only [Prod.mk.injEq] at h
    rw [← h.1]
    rfl
  · rename_i hne
    simp only [Prod.mk.injEq] at h
    obtain ⟨rfl, rfl⟩ := h
    rw [List.nil_append]
    unfold minus
    split
    · rename_i heq
      simp only [List.cons.injEq] at heq
      exact absurd (by rw [heq.1]) (hne r)
    · rfl

theorem local_floatMark : Local floatMark := by
  intro t a d r h r'
  unfold floatMark at h
  split at h
  · simp only [Prod.mk.injEq] at h
    rw [← h.1]
    rfl
  · simp only [Prod.mk.injEq] at h
    rw [← h.1]
    rfl
  · rename_i hf hF
    simp only [Prod.mk.injEq] at h
    obtain ⟨rfl, rfl⟩ := h
    rw [List.nil_append]
    unfold floatMark
    split
    · rename_i heq
      simp only [List.cons.injEq] at heq
      exact absurd (by rw [heq.1]) (hf r)
    · rename_i heq
      simp only [List.cons.injEq] at heq
      exact absurd (by rw [heq.1]) (hF r)
    · rfl

theorem digits_append_cons {w : Text} {d : Char} (hw : ∀ c ∈ w, Text.isDigit c = true)
    (hd : Text.isDigit d = false) (r : Text) : digits (w ++ d :: r) = (w, d :: r) := by
  unfold digits
  rw [List.takeWhile_append_of_pos hw, List.dropWhile_append_of_pos hw]
  simp [hd]

theorem append_of_digits {t w r : Text} (h : digits t = (w, r)) : w ++ r = t := by
  rw [← digits_append t, h]

theorem isDigit_of_digits {t w r : Text} (h : digits t = (w, r)) : ∀ c ∈ w, Text.isDigit c = true := by
  intro c hc
  rw [← (Prod.mk.inj h).1] at hc
  exact List.all_eq_true.1 List.all_takeWhile c hc

theorem local_digits : Local digits := by
  intro t a d r h r'
  have hdigit := isDigit_of_digits h
  simp only [digits, Prod.mk.injEq] at h
  refine digits_append_cons hdigit ?_ r'
  have hne : t.dropWhile Text.isDigit ≠ [] := by simp [h.2]
  have := List.head_dropWhile_not Text.isDigit hne
  simpa [h.2] using this

theorem int?_eq_some_iff {t a r : Text} : int? t = some (a, r) ↔
    ∃ sign x w, minus t = (sign, x) ∧ digits x = (w, r) ∧ w ≠ [] ∧ a = sign ++ w := by
  unfold int?
  cases hm : minus t with
  | mk sign x =>
    cases hd : digits x with
    | mk w y =>
      simp only [hd, Prod.mk.injEq]
      constructor
      · intro h
        split at h
        · exact absurd h nofun
        · rename_i hne
          cases h
          exact ⟨_, _, _, ⟨rfl, rfl⟩, hd, by simpa using hne, rfl⟩
      · rintro ⟨sign, x, w, ⟨rfl, rfl⟩, hx, hne, rfl⟩
        obtain ⟨rfl, rfl⟩ := Prod.mk.inj (hd.symm.trans hx)
        rw [if_neg (by simpa using hne)]

theorem int?_local {t a : Text} {d : Char} {r : Text} (h : int? t = some (a, d :: r)) (r' : Text) :
    int? (a ++ d :: r') = some (a, d :: r') := by
  obtain ⟨sign, x, w, hm, hd, hne, rfl⟩ := int?_eq_some_iff.1 h
  rw [← append_of_digits hd] at hm
  refine int?_eq_some_iff.2 ⟨sign, w ++ d :: r', w, ?_, local_digits _ _ _ _ hd r', hne, rfl⟩
  rw [List.append_assoc]
  exact local_minus.append hm r'

theorem closing?_local {t a b : Text} (h : closing? t = some (a, b)) (y : Text) :
    closing? (a ++ y) = some (a, y) := by
  fun_induction closing? t generalizing a b with
  | case1 r =>
    simp only [Option.some.injEq, Prod.mk.injEq] at h
    rw [← h.1]
    rfl
  | case2 => simp at h
  | case3 => simp at h
  | case4 c r hc ih =>
    obtain ⟨⟨x, z⟩, hx, he⟩ := Option.map_eq_some_iff.1 h
    simp only [Prod.mk.injEq] at he
    rw [← he.1, List.cons_append, List.cons_append, closing?, if_neg hc, ih hx]
    rfl
  | case5 => simp at h
  | case6 c r h1 h2 h3 hc ih =>
    obtain ⟨⟨x, z⟩, hx, he⟩ := Option.map_eq_some_iff.1 h
    simp only [Prod.mk.injEq] at he
    have hne : c ≠ '\\' := by
      rintro rfl
      cases r with
      | nil => exact h2 rfl rfl
      | cons e r => exact h3 e r rfl rfl
    rw [← he.1, List.cons_append, closing?, if_neg hc, ih hx]
    · rfl
    · exact h1
    · exact fun h => absurd h hne
    · exact fun _ _ h => absurd h hne
  | case7 => simp at h

theorem text?_local {t a b : Text} (h : text? t = some (a, b)) (y : Text) :
    text? (a ++ y) = some (a, y) := by
  unfold text? at h
  split at h
  · obtain ⟨⟨x, z⟩, hx, he⟩ := Option.map_eq_some_iff.1 h
    simp only [Prod.mk.injEq] at he
    rw [← he.1, List.cons_append, text?, closing?_local hx]
    rfl
  · simp at h

theorem bool?_local {t a b : Text} (h : bool? t = some (a, b)) (y : Text) :
    bool? (a ++ y) = some (a, y) := by
  obtain ⟨w, hw, hm⟩ := List.exists_of_findSome?_eq_some h
  obtain ⟨r, -, he⟩ := Option.map_eq_some_iff.1 hm
  obtain rfl := (Prod.mk.inj he).1
  simp only [List.mem_cons, List.not_mem_nil, or_false] at hw
  rcases hw with rfl | rfl | rfl | rfl <;> rfl

/-- The number of a float literal, between the sign and the mark. -/
def number? (t : Text) : Option (Text × Text) :=
  let (whole, r) := digits t
  match whole, r with
  | [], '.' :: r =>
    let (fraction, r) := digits r
    if fraction.isEmpty then none else some ('.' :: fraction, r)
  | [], _ => none
  | whole, '.' :: r =>
    let (fraction, r) := digits r
    some (whole ++ '.' :: fraction, r)
  | whole, r => some (whole, r)

/-- How a number is read: digits with a point behind them, or before them, or with none. -/
inductive ReadsNumber (t : Text) : Text → Text → Prop where
  | fraction {x f r : Text} : digits t = ([], '.' :: x) → digits x = (f, r) → f ≠ [] →
      ReadsNumber t ('.' :: f) r
  | point {w x f r : Text} : digits t = (w, '.' :: x) → w ≠ [] → digits x = (f, r) →
      ReadsNumber t (w ++ '.' :: f) r
  | whole {w r : Text} : digits t = (w, r) → w ≠ [] → (∀ x, r ≠ '.' :: x) → ReadsNumber t w r

theorem readsNumber_of_number? {t a r : Text} (h : number? t = some (a, r)) : ReadsNumber t a r := by
  unfold number? at h
  cases hw : digits t with
  | mk whole x =>
    simp only [hw] at h
    split at h
    · rename_i x
      cases hf : digits x with
      | mk fraction y =>
        simp only [hf] at h
        split at h
        · exact absurd h nofun
        · rename_i hne
          cases h
          exact .fraction hw hf (by simpa using hne)
    · exact absurd h nofun
    · rename_i x hne
      cases hf : digits x with
      | mk fraction y =>
        simp only [hf] at h
        cases h
        exact .point hw hne hf
    · rename_i hne hpoint _
      cases h
      exact .whole hw hne hpoint

theorem ReadsNumber.number?_eq {t a r : Text} (h : ReadsNumber t a r) : number? t = some (a, r) := by
  unfold number?
  cases h with
  | @fraction x f _ hw hf hne =>
    rw [hw]
    show (if (digits x).1.isEmpty then none else some ('.' :: (digits x).1, (digits x).2)) = _
    rw [hf, if_neg (by simpa using hne)]
  | @point w x f _ hw hne hf =>
    obtain ⟨c, w, rfl⟩ := List.exists_cons_of_ne_nil hne
    rw [hw]
    show some (c :: w ++ '.' :: (digits x).1, (digits x).2) = _
    rw [hf]
  | @whole w _ hw hne hpoint =>
    obtain ⟨c, w, rfl⟩ := List.exists_cons_of_ne_nil hne
    rw [hw]
    dsimp only
    split
    · exact absurd ‹_› (List.cons_ne_nil c w)
    · exact absurd ‹_› (List.cons_ne_nil c w)
    · exact absurd rfl (hpoint _)
    · rfl

theorem float?_eq (t : Text) :
    float? t = (number? (minus t).2).map fun p =>
      ((minus t).1 ++ p.1 ++ (floatMark p.2).1, (floatMark p.2).2) := rfl

theorem number?_local {t a x : Text} {d : Char} {r : Text}
    (h : number? t = some (a, x ++ d :: r)) (r' : Text) :
    number? (a ++ (x ++ d :: r')) = some (a, x ++ d :: r') := by
  refine ReadsNumber.number?_eq ?_
  cases readsNumber_of_number? h with
  | @fraction y f _ hw hf hne =>
    have hpoint := local_digits _ _ _ _ hw (f ++ (x ++ d :: r'))
    exact .fraction hpoint (local_digits.append hf r') hne
  | @point w y f _ hw hne hf =>
    have hpoint := local_digits _ _ _ _ hw (f ++ (x ++ d :: r'))
    rw [List.append_assoc, List.cons_append]
    exact .point hpoint hne (local_digits.append hf r')
  | whole hw hne hpoint =>
    -- the character behind the digits is the same one
    refine .whole (local_digits.append hw r') hne fun y heq => ?_
    cases x with
    | nil => exact hpoint r (by rw [(List.cons.inj heq).1]; rfl)
    | cons e x => exact hpoint (x ++ d :: r) (by rw [(List.cons.inj heq).1]; rfl)

theorem number?_append {t a b : Text} (h : number? t = some (a, b)) : a ++ b = t := by
  cases readsNumber_of_number? h with
  | fraction hw hf _ =>
    rw [← append_of_digits hw, ← append_of_digits hf, List.nil_append, List.cons_append]
  | point hw _ hf =>
    rw [← append_of_digits hw, ← append_of_digits hf, List.append_assoc, List.cons_append]
  | whole hw _ _ => exact append_of_digits hw

theorem float?_local {t a : Text} {d : Char} {r : Text} (h : float? t = some (a, d :: r))
    (r' : Text) : float? (a ++ d :: r') = some (a, d :: r') := by
  rw [float?_eq] at h
  obtain ⟨⟨number, r₂⟩, hn, he⟩ := Option.map_eq_some_iff.1 h
  simp only [Prod.mk.injEq] at he
  cases hs : minus t with
  | mk sign t₂ =>
    cases hm : floatMark r₂ with
    | mk mark r₃ =>
      rw [hs, hm] at he
      rw [hs] at hn
      dsimp only at he hn
      obtain ⟨rfl, rfl⟩ := he
      have hr₂ : mark ++ d :: r = r₂ := by rw [← floatMark_append r₂, hm]
      have ht₂ : number ++ mark ++ d :: r = t₂ := by
        rw [← number?_append hn, ← hr₂, List.append_assoc]
      have h1 := local_minus.append (ht₂ ▸ hs) r'
      have h2 := number?_local (hr₂ ▸ hn) r'
      have h3 := local_floatMark _ _ _ _ hm r'
      have hassoc : sign ++ number ++ mark ++ d :: r' = sign ++ (number ++ mark ++ d :: r') := by
        simp only [List.append_assoc]
      rw [hassoc, float?_eq, h1]
      dsimp only
      rw [List.append_assoc, h2, Option.map_some, h3]

/-- A literal is read the same whatever follows the character behind it. -/
theorem literal?_local {type : ValueType} {t a : Text} {d : Char} {r : Text}
    (h : type.literal? t = some (a, d :: r)) (r' : Text) :
    type.literal? (a ++ d :: r') = some (a, d :: r') := by
  cases type with
  | float => exact float?_local h r'
  | int => exact int?_local h r'
  | bool => exact bool?_local h _
  | text => exact text?_local h _

end Literal

theorem ValueType.type_of_read? {type : ValueType} {t : Text} {v : Value} (h : type.read? t = some v) :
    v.type = type := by
  cases type with
  | float =>
    obtain ⟨x, -, rfl⟩ := Option.map_eq_some_iff.1 h
    rfl
  | int =>
    obtain ⟨n, -, rfl⟩ := Option.map_eq_some_iff.1 h
    rfl
  | bool =>
    simp only [read?] at h
    split at h
    · exact Option.some.inj h ▸ rfl
    · split at h
      · exact Option.some.inj h ▸ rfl
      · simp at h
  | text =>
    simp only [read?] at h
    split at h
    · split at h
      · exact Option.some.inj h ▸ rfl
      · simp at h
    · simp at h

end RoutineSync
