import RoutineSync.Proofs.Scan.Found
import RoutineSync.Proofs.Text.Landing
/-!
Where a text says the word that calls start with. Edits that cut between words neither make nor break
one: it stands where it stood before, moved by the edits before it, or in what an edit writes.
-/
set_option autoImplicit false

namespace RoutineSync

namespace Text

def haltsWord (t : Text) : Bool := !t.head?.any isWord

/-- The word that calls start with stands at place `n`, and is not part of a longer one. -/
def Opens (t : Text) (n : Nat) : Prop :=
  ∃ lead rest : Text, t = lead ++ ("auton".toList ++ rest) ∧ lead.size = n ∧
    lead.endsWord = true ∧ rest.haltsWord = true

/-- A word can start at place `n` of a text that starts at place `p`. -/
def WordAt (p : Nat) (t : Text) (n : Nat) : Prop :=
  ∃ lead rest : Text, t = lead ++ rest ∧ n = p + lead.size ∧ lead.endsWord = true

/-- No word reaches from a text into another one behind it. -/
def Seam (u v : Text) : Prop := u.endsWord = true ∨ v.haltsWord = true

variable {t u v : Text} {n : Nat}

theorem isWord_of_isBlank {c : Char} (h : isBlank c = true) : isWord c = false := by
  have hall : ∀ n ∈ [0x20, 9, 10, 11, 12, 13, 0x85, 0xA0, 0x1680, 0x2000, 0x2001, 0x2002, 0x2003, 0x2004,
      0x2005, 0x2006, 0x2007, 0x2008, 0x2009, 0x200A, 0x2028, 0x2029, 0x202F, 0x205F, 0x3000],
      isWord (Char.ofNat n) = false := by decide +kernel
  simp only [isBlank, Bool.or_eq_true, Bool.and_eq_true, decide_eq_true_eq, beq_iff_eq] at h
  rw [← Char.ofNat_toNat c]
  apply hall
  generalize c.toNat = n at h
  simp only [List.mem_cons, List.not_mem_nil, or_false]
  omega

theorem endsWord_append_of (hu : u.endsWord = true) (hv : v.endsWord = true) :
    (u ++ v).endsWord = true := by
  cases v with
  | nil => rwa [List.append_nil]
  | cons c v => rwa [endsWord_append (List.cons_ne_nil c v)]

theorem endsWord_of_closes (h : t.getLast? = some ';') : t.endsWord = true := by
  rw [endsWord, h]
  decide

theorem haltsWord_append (h : u ≠ []) : (u ++ v).haltsWord = u.haltsWord := by
  rw [haltsWord, haltsWord, List.head?_append_of_ne_nil u h]

theorem Opens.lt_size (h : t.Opens n) : n < t.size := by
  obtain ⟨lead, rest, rfl, rfl, -⟩ := h
  have : (0 : Nat) < size "auton".toList := by decide
  simp only [size_append]
  omega

theorem Opens.wordAt (h : t.Opens n) : WordAt 0 t n := by
  obtain ⟨lead, rest, rfl, rfl, hend, -⟩ := h
  exact ⟨lead, _, rfl, (Nat.zero_add _).symm, hend⟩

theorem Opens.isInfix (h : t.Opens n) : "auton".toList <:+: t := by
  obtain ⟨lead, rest, rfl, -⟩ := h
  exact ⟨lead, rest, List.append_assoc _ _ _⟩

theorem opens_word_iff : Text.Opens "auton".toList n ↔ n = 0 := by
  constructor
  · rintro ⟨lead, rest, ht, rfl, -⟩
    have := congrArg size ht
    simp only [size_append] at this
    omega
  · rintro rfl
    exact ⟨[], [], rfl, rfl, rfl, rfl⟩

theorem WordAt.endsWord {p : Nat} (h : WordAt p (u ++ v) n) (hn : n = p + u.size) : u.endsWord = true := by
  obtain ⟨lead, rest, ht, hlead, hend⟩ := h
  rwa [(append_inj_of_size ht (by omega)).1]

theorem WordAt.of_append {p : Nat} (h : WordAt p (u ++ v) n) (hn : p + u.size ≤ n) :
    WordAt (p + u.size) v n := by
  obtain ⟨lead, rest, ht, rfl, hend⟩ := h
  obtain ⟨m, rfl, rfl⟩ := exists_middle ht (by omega)
  exact ⟨m, rest, rfl, by rw [size_append]; omega, endsWord_of_append hend⟩

theorem not_opens_nil : ¬Opens [] n := fun h => Nat.not_lt_zero n h.lt_size

theorem not_opens_of_blank (h : ∀ c ∈ t, isBlank c = true) : ¬t.Opens n := by
  rintro ⟨lead, rest, rfl, -⟩
  exact absurd (h 'a' (by simp)) (by decide)

/-- The word does not reach across a seam. -/
theorem Seam.of_word {x y : Text} (hw : "auton".toList = x ++ y) (h : Seam (u ++ x) (y ++ v)) :
    x = [] ∨ y = [] := by
  have hall : "auton".toList.all isWord = true := by decide
  rw [hw, List.all_append, Bool.and_eq_true, List.all_eq_true, List.all_eq_true] at hall
  by_contra hne
  rw [not_or] at hne
  rcases h with h | h
  · obtain ⟨c, hc⟩ := Option.isSome_iff_exists.1 (List.getLast?_isSome.2 hne.1)
    rw [endsWord_append hne.1, endsWord, hc, Option.any_some, hall.1 c (List.mem_of_getLast? hc)] at h
    exact absurd h (by decide)
  · obtain ⟨c, hc⟩ := Option.isSome_iff_exists.1 (List.isSome_head?.2 hne.2)
    rw [haltsWord_append hne.2, haltsWord, hc, Option.any_some, hall.2 c (List.mem_of_head? hc)] at h
    exact absurd h (by decide)

/-- Between words, what two texts say together is what each of them says. -/
theorem opens_append_iff (h : Seam u v) :
    (u ++ v).Opens n ↔ u.Opens n ∨ ∃ k, n = u.size + k ∧ v.Opens k := by
  constructor
  · rintro ⟨lead, rest, ht, rfl, hlead, hrest⟩
    rcases List.append_eq_append_iff.1 ht with ⟨x, rfl, rfl⟩ | ⟨x, rfl, hx⟩
    · exact .inr ⟨Text.size x, size_append u x, x, rest, rfl, rfl, endsWord_of_append hlead, hrest⟩
    rcases List.append_eq_append_iff.1 hx with ⟨y, rfl, rfl⟩ | ⟨y, hy, rfl⟩
    · refine .inl ⟨lead, y, rfl, rfl, hlead, ?_⟩
      cases y with
      | nil => rfl
      | cons d y => exact hrest
    · -- what is left of the word does not stand in the other text
      rcases h.of_word hy with rfl | rfl
      · rw [List.nil_append] at hy
        exact .inr ⟨0, by simp, [], rest, by rw [hy]; rfl, rfl, rfl, hrest⟩
      · rw [List.append_nil] at hy
        exact .inl ⟨lead, [], by rw [hy, List.append_nil], rfl, hlead, rfl⟩
  · rintro (⟨lead, rest, rfl, rfl, hlead, hrest⟩ | ⟨_, rfl, lead, rest, rfl, rfl, hlead, hrest⟩)
    · refine ⟨lead, rest ++ v, by simp, rfl, hlead, ?_⟩
      cases rest with
      | cons d rest => exact hrest
      | nil =>
        refine h.resolve_left fun hend => ?_
        rw [List.append_nil, endsWord_append (by decide)] at hend
        exact absurd hend (by decide)
    · refine ⟨u ++ lead, rest, by simp, size_append u lead, ?_, hrest⟩
      cases lead with
      | cons d lead => rwa [endsWord_append (List.cons_ne_nil _ _)]
      | nil =>
        rw [List.append_nil]
        refine h.resolve_right fun hhalt => ?_
        rw [List.nil_append, haltsWord_append (by decide)] at hhalt
        exact absurd hhalt (by decide)

end Text

namespace TextEdit
open Text (Seam Opens opens_append_iff)

/-- Every edit ends before a place, or starts behind it. -/
def Spares (es : List TextEdit) (n : Nat) : Prop := ∀ e ∈ es, e.range.stop ≤ n ∨ n < e.range.start

/-- How far the edits before a place move it. -/
def shiftAt (es : List TextEdit) (n : Nat) : Int := totalDelta (es.filter (countsAtStart n))

theorem shiftAt_eq_zero {es : List TextEdit} {n : Nat} (h : ∀ e ∈ es, n < e.range.stop) :
    shiftAt es n = 0 := by
  have hnone : es.filter (countsAtStart n) = [] :=
    List.filter_eq_nil_iff.2 fun e he => by rw [countsAtStart_iff]; exact Nat.not_le.2 (h e he)
  rw [shiftAt, hnone, totalDelta]

theorem shiftAt_cons {e : TextEdit} {n : Nat} (h : e.range.stop ≤ n) (es : List TextEdit) :
    shiftAt (e :: es) n = e.delta + shiftAt es n := by
  rw [shiftAt, List.filter_cons_of_pos (countsAtStart_iff.2 h), totalDelta, shiftAt]

/-- Edits that fit, and cut a text, as it is before them and behind them, between words. -/
inductive Parts : Nat → List TextEdit → Text → Prop where
  | nil {p : Nat} {t : Text} : Parts p [] t
  | cons {p : Nat} {a b c text : Text} {es : List TextEdit} :
      Parts (p + a.size + b.size) es c → Seam a (b ++ c) → Seam b c →
      Seam a (text ++ applyFrom (p + a.size + b.size) es c) →
      Seam text (applyFrom (p + a.size + b.size) es c) →
      Parts p (⟨⟨p + a.size, p + a.size + b.size⟩, text⟩ :: es) (a ++ b ++ c)

namespace Parts
variable {p n m k : Nat} {es fs gs : List TextEdit} {e : TextEdit} {t : Text}

theorem fit (h : Parts p es t) : Fit p es t := by
  induction h with
  | nil => exact .nil
  | cons _ _ _ _ _ ih => exact .cons ih

/-- The word stands, behind the edits, where one spares it or where one writes it. -/
theorem of_opens (h : Parts p es t) (hn : (applyFrom p es t).Opens n) :
    (∃ m, t.Opens m ∧ Spares es (p + m) ∧ (n : Int) = m + shiftAt es (p + m)) ∨
      ∃ fs e gs, es = fs ++ e :: gs ∧ ∃ k : Nat, e.text.Opens k ∧
        (p + n : Int) = e.range.start + totalDelta fs + k := by
  induction h generalizing n with
  | nil => exact .inl ⟨n, hn, by simp [Spares], by simp [shiftAt, totalDelta]⟩
  | @cons p a b c text es hparts hab hbc hat htc ih =>
    rw [applyFrom_cons, List.append_assoc, opens_append_iff hat] at hn
    rw [List.append_assoc]
    rcases hn with hn | ⟨j, rfl, hj⟩
    · have hlt := hn.lt_size
      have hbehind : ∀ e ∈ es, p + n < e.range.start ∧ p + n < e.range.stop := fun e he => by
        have := hparts.fit.start_le e he
        omega
      refine .inl ⟨n, (opens_append_iff hab).2 (.inl hn), ?_, ?_⟩
      · exact List.forall_mem_cons.2 ⟨.inr (Nat.add_lt_add_left hlt p), fun e he => .inr (hbehind e he).1⟩
      · rw [shiftAt_eq_zero, Int.add_zero]
        refine List.forall_mem_cons.2 ⟨?_, fun e he => (hbehind e he).2⟩
        show p + n < p + a.size + b.size
        omega
    rcases (opens_append_iff htc).1 hj with hk | ⟨k, rfl, hk⟩
    · refine .inr ⟨[], _, es, rfl, j, hk, ?_⟩
      simp only [totalDelta]
      omega
    rcases ih hk with ⟨m, hm, hspares, hplace⟩ | ⟨fs, e, gs, rfl, i, hi, hplace⟩
    · have hm' : p + (a.size + (b.size + m)) = p + a.size + b.size + m := by omega
      have hle : p + a.size + b.size ≤ p + a.size + b.size + m := Nat.le_add_right _ _
      refine .inl ⟨a.size + (b.size + m), ?_, ?_, ?_⟩
      · exact (opens_append_iff hab).2 (.inr ⟨_, rfl, (opens_append_iff hbc).2 (.inr ⟨m, rfl, hm⟩)⟩)
      · rw [hm']
        exact List.forall_mem_cons.2 ⟨.inl hle, hspares⟩
      · rw [hm', shiftAt_cons hle, delta]
        simp only
        omega
    · refine .inr ⟨_ :: fs, e, gs, rfl, i, hi, ?_⟩
      simp only [totalDelta, delta]
      omega

theorem opens_of_spares (h : Parts p es t) (hm : t.Opens m) (hs : Spares es (p + m)) :
    ∃ n : Nat, (applyFrom p es t).Opens n ∧ (n : Int) = m + shiftAt es (p + m) := by
  induction h generalizing m with
  | nil => exact ⟨m, hm, by simp [shiftAt, totalDelta]⟩
  | @cons p a b c text es hparts hab hbc hat htc ih =>
    rw [applyFrom_cons, List.append_assoc]
    rw [List.append_assoc] at hm
    obtain ⟨hfirst, hrest⟩ := List.forall_mem_cons.1 hs
    rcases (opens_append_iff hab).1 hm with hn | ⟨j, rfl, hj⟩
    · have hlt := hn.lt_size
      refine ⟨m, (opens_append_iff hat).2 (.inl hn), ?_⟩
      rw [shiftAt_eq_zero, Int.add_zero]
      refine List.forall_mem_cons.2 ⟨?_, fun e he => ?_⟩
      · show p + m < p + a.size + b.size
        omega
      · have := hparts.fit.start_le e he
        omega
    rcases (opens_append_iff hbc).1 hj with hn | ⟨m, rfl, hn⟩
    · -- what the edit takes out is not spared
      have hlt := hn.lt_size
      simp only at hfirst
      omega
    · have hm' : p + (a.size + (b.size + m)) = p + a.size + b.size + m := by omega
      rw [hm'] at hrest ⊢
      obtain ⟨n, hn, hplace⟩ := ih hn hrest
      refine ⟨a.size + (text.size + n), ?_, ?_⟩
      · exact (opens_append_iff hat).2 (.inr ⟨_, rfl, (opens_append_iff htc).2 (.inr ⟨n, rfl, hn⟩)⟩)
      · rw [shiftAt_cons (Nat.le_add_right _ _), delta]
        simp only
        omega

theorem opens_of_written (h : Parts p (fs ++ e :: gs) t) (hk : e.text.Opens k) :
    ∃ n : Nat, (applyFrom p (fs ++ e :: gs) t).Opens n ∧
      (p + n : Int) = e.range.start + totalDelta fs + k := by
  induction fs generalizing p t with
  | nil =>
    cases h with
    | @cons p a b c text es hparts hab hbc hat htc =>
      rw [List.nil_append, applyFrom_cons, List.append_assoc]
      refine ⟨a.size + k, (opens_append_iff hat).2 (.inr ⟨k, rfl, (opens_append_iff htc).2 (.inl hk)⟩), ?_⟩
      simp only [totalDelta]
      omega
  | cons f fs ih =>
    rw [List.cons_append] at h ⊢
    cases h with
    | @cons p a b c text es hparts hab hbc hat htc =>
      obtain ⟨n, hn, hplace⟩ := ih hparts
      rw [applyFrom_cons, List.append_assoc]
      refine ⟨a.size + (text.size + n), ?_, ?_⟩
      · exact (opens_append_iff hat).2 (.inr ⟨_, rfl, (opens_append_iff htc).2 (.inr ⟨n, rfl, hn⟩)⟩)
      · simp only [totalDelta, delta]
        omega

end Parts

/-- The text goes on at place `n`, with something that is not part of a word. -/
def HaltsAt (p : Nat) (t : Text) (n : Nat) : Prop :=
  ∃ (lead : Text) (c : Char) (rest : Text), t = lead ++ c :: rest ∧ n = p + lead.size ∧ Text.isWord c = false

theorem HaltsAt.of_append {p n : Nat} {u v : Text} (h : HaltsAt p (u ++ v) n) (hn : p + u.size ≤ n) :
    HaltsAt (p + u.size) v n := by
  obtain ⟨lead, c, rest, ht, rfl, hc⟩ := h
  obtain ⟨m, rfl, rfl⟩ := Text.exists_middle ht (by omega)
  exact ⟨m, c, rest, rfl, by rw [Text.size_append]; omega, hc⟩

/-- An edit that cuts a text, which starts at place `p`, between words and writes whole words. Behind
a word the end of the text can be cut off, where none of the edits writes another word then; and what
is written can end with a word where something else is left behind it. -/
structure Parting (p : Nat) (t : Text) (es : List TextEdit) (e : TextEdit) : Prop where
  start : Text.WordAt p t e.range.start ∨
    (e.range.stop = p + t.size ∧
      (∃ lead rest : Text, t = lead ++ rest ∧ e.range.start = p + lead.size ∧ rest.haltsWord = true) ∧
      ∀ f ∈ es, e.range.start ≤ f.range.start → f.text.haltsWord = true)
  stop : (e.text.endsWord = true ∧ (Text.WordAt p t e.range.stop ∨ e.range.stop = p + t.size)) ∨
    (HaltsAt p t e.range.stop ∧ ∀ f ∈ es, f.range.start ≠ e.range.stop)

theorem Parting.of_append {p : Nat} {u v : Text} {es fs : List TextEdit} {e : TextEdit}
    (h : Parting p (u ++ v) es e) (hfs : fs ⊆ es) (hstart : p + u.size ≤ e.range.start)
    (hstop : e.range.start ≤ e.range.stop) : Parting (p + u.size) v fs e := by
  refine ⟨h.start.imp (·.of_append hstart) ?_, h.stop.imp (.imp_right (.imp ?_ ?_)) (.imp ?_ ?_)⟩
  · rintro ⟨hend, ⟨lead, rest, ht, hlead, hrest⟩, hwrites⟩
    obtain ⟨m, rfl, rfl⟩ := Text.exists_middle ht (by omega)
    rw [Text.size_append] at hend hlead
    exact ⟨by omega, ⟨m, rest, rfl, by omega, hrest⟩, fun f hf => hwrites f (hfs hf)⟩
  · exact (·.of_append (by omega))
  · rw [Text.size_append]
    omega
  · exact (·.of_append (by omega))
  · exact fun hne f hf => hne f (hfs hf)

/-- At the end of a text edits only write. -/
theorem Fit.haltsWord {p : Nat} {es : List TextEdit} (h : Fit p es [])
    (hwrites : ∀ e ∈ es, e.text.haltsWord = true) : (applyFrom p es []).haltsWord = true := by
  generalize ht : ([] : Text) = t at h
  induction h with
  | nil => rw [← ht]; rfl
  | @cons p a b c text es h ih =>
    obtain ⟨hab, rfl⟩ := List.append_eq_nil_iff.1 ht.symm
    obtain ⟨rfl, rfl⟩ := List.append_eq_nil_iff.1 hab
    rw [applyFrom_cons, List.nil_append]
    cases text with
    | nil => exact ih (fun e he => hwrites e (List.mem_cons_of_mem _ he)) rfl
    | cons d text => exact hwrites _ List.mem_cons_self

theorem Fit.exists_applyFrom_cons {p : Nat} {es : List TextEdit} {c : Char} {t : Text}
    (h : Fit p es (c :: t)) (hne : ∀ e ∈ es, e.range.start ≠ p) :
    ∃ x, applyFrom p es (c :: t) = c :: x := by
  generalize ht : c :: t = u at h
  cases h with
  | nil => exact ⟨t, ht.symm⟩
  | @cons p a b d text es h =>
    cases a with
    | nil => exact absurd rfl (hne _ List.mem_cons_self)
    | cons a₀ a =>
      obtain rfl : c = a₀ := (List.cons.inj ht).1
      rw [applyFrom_cons]
      exact ⟨_, rfl⟩

theorem Fit.parts {p : Nat} {es : List TextEdit} {t : Text} (h : Fit p es t)
    (hes : ∀ e ∈ es, Parting p t es e) : Parts p es t := by
  induction h with
  | nil => exact .nil
  | @cons p a b c text es h ih =>
    have hsize : p + a.size + b.size = p + (a ++ b).size := by rw [Text.size_append, Nat.add_assoc]
    have hbehind : ∀ e ∈ es, Parting (p + a.size + b.size) c es e := fun e he => by
      have hle := h.start_le e he
      rw [hsize] at hle ⊢
      exact (hes e (List.mem_cons_of_mem _ he)).of_append (List.subset_cons_self _ _) hle.1 hle.2.1
    obtain ⟨hstart, hstop⟩ := hes _ List.mem_cons_self
    -- where the text goes on behind the edit, and how it does then
    have hc : Seam b c ∧ Seam text (applyFrom (p + a.size + b.size) es c) := by
      rcases hstop with ⟨htext, hstop⟩ | ⟨hstop, hne⟩
      · refine ⟨?_, .inl htext⟩
        rcases hstop with hstop | hstop
        · exact .inl (Text.endsWord_of_append (hstop.endsWord hsize))
        · obtain rfl : c = [] := Text.size_eq_zero_iff.1 (by
            simp only [Text.size_append] at hstop
            omega)
          exact .inr rfl
      · obtain ⟨lead, d, rest, ht, hlead, hd⟩ := hstop
        obtain rfl := (Text.append_inj_of_size ht (Nat.add_left_cancel (hsize.symm.trans hlead))).2
        obtain ⟨x, hx⟩ := h.exists_applyFrom_cons fun e he => hne e (List.mem_cons_of_mem _ he)
        have hhalts : ∀ x : Text, Text.haltsWord (d :: x) = true := fun x => by simp [Text.haltsWord, hd]
        exact ⟨.inr (hhalts rest), .inr (hx ▸ hhalts x)⟩
    refine .cons (ih hbehind) ?_ hc.1 ?_ hc.2
    · rw [List.append_assoc] at hstart
      refine hstart.imp (·.endsWord rfl) ?_
      rintro ⟨-, ⟨lead, rest, ht, hlead, hrest⟩, -⟩
      rwa [(Text.append_inj_of_size ht (Nat.add_left_cancel hlead)).2]
    · rw [List.append_assoc] at hstart
      refine hstart.imp (·.endsWord rfl) ?_
      rintro ⟨hend, -, hwrites⟩
      obtain rfl : c = [] := Text.size_eq_zero_iff.1 (by
        simp only [Text.size_append] at hend
        omega)
      -- nothing is left of the text, so only what the edits write comes next
      cases text with
      | cons d text => exact hwrites _ List.mem_cons_self (Nat.le_refl _)
      | nil =>
        refine h.haltsWord fun e he => hwrites e (List.mem_cons_of_mem _ he) ?_
        have := (h.start_le e he).1
        show p + a.size ≤ _
        omega

end TextEdit

end RoutineSync
