import RoutineSync.Proofs.Call.Layout
/-!
A call that is written: what is written first and last, and that the argument ranges are inside it
and apart.
-/
set_option autoImplicit false

namespace RoutineSync

theorem Decimal.text_ne_nil (d : Decimal) : d.text ≠ [] := by
  have hnat : natText d.digits ≠ [] := Nat.toDigits_ne_nil
  unfold Decimal.text
  split
  · split
    · exact hnat
    · simp [hnat]
  · simp

theorem Value.source_ne_nil (v : Value) : v.source ≠ [] := by
  cases v with
  | float x =>
    cases x with
    | nan => exact List.cons_ne_nil _ _
    | infinite negative => simp [source, Binary64.text]
    | finite negative m =>
      simp only [source, Binary64.text]
      split <;> split <;> simp [Decimal.text_ne_nil]
  | int n =>
    have hnat : Decimal.natText n.toInt.natAbs ≠ [] := Nat.toDigits_ne_nil
    simp [source, intText, hnat]
  | bool b => cases b <;> decide
  | text cs => exact List.cons_ne_nil _ _

namespace NameMap
variable {α : Type}

theorem pairwise_insert {R : String × α → String × α → Prop} (symm : ∀ e f, R e f → R f e)
    {name : String} {a : α} {m : NameMap α} (h : m.Pairwise R) (hm : ∀ e ∈ m, R (name, a) e) :
    (insert name a m).Pairwise R := by
  induction m with
  | nil => exact List.pairwise_singleton _ _
  | cons f r ih =>
    obtain ⟨n, b⟩ := f
    rw [List.pairwise_cons] at h
    rw [insert]
    split
    · exact .cons hm (.cons h.1 h.2)
    · split
      · exact .cons (fun e he => hm e (List.mem_cons_of_mem _ he)) h.2
      · refine .cons (fun e he => ?_) (ih h.2 fun e he => hm e (List.mem_cons_of_mem _ he))
        rcases mem_insert he with rfl | he
        · exact symm _ _ (hm _ List.mem_cons_self)
        · exact h.1 e he

end NameMap

/-- A call of which a part is written, at least its first token. -/
structure CallText.Begun (c : CallText) : Prop where
  opens : "auton".toList <+: c.text
  inside : ∀ e ∈ c.params, ∃ x y z, c.text = x ++ y ++ z ∧ e.2 = ⟨x.size, x.size + y.size⟩ ∧
    x ≠ [] ∧ y ≠ []
  apart : c.params.Pairwise fun e f => e.2.stop ≤ f.2.start ∨ f.2.stop ≤ e.2.start

namespace CallText.Begun
variable {c : CallText}

theorem append (h : c.Begun) (w : Text) : Begun { c with text := c.text ++ w } where
  opens := h.opens.trans (List.prefix_append _ _)
  inside := by
    intro e he
    obtain ⟨x, y, z, ht, hr, hx, hy⟩ := h.inside e he
    exact ⟨x, y, z ++ w, by simp [ht], hr, hx, hy⟩
  apart := h.apart

theorem argument (h : c.Begun) (name : String) {w : Text} (hw : w ≠ []) :
    Begun ⟨c.text ++ w, c.params.insert name ⟨c.text.size, (c.text ++ w).size⟩⟩ where
  opens := h.opens.trans (List.prefix_append _ _)
  inside := by
    intro e he
    rcases NameMap.mem_insert he with rfl | he
    · refine ⟨c.text, w, [], by simp, by simp [Text.size_append], ?_, hw⟩
      rintro h0
      simpa [h0] using h.opens
    · exact (h.append w).inside e he
  apart := by
    refine NameMap.pairwise_insert (fun _ _ => Or.symm) h.apart fun e he => .inr ?_
    obtain ⟨x, y, z, ht, hr, -, -⟩ := h.inside e he
    have := congrArg Text.size ht
    simp only [Text.size_append] at this
    simp only [hr]
    omega

theorem finish (h : c.Begun) {w : Text} (hw : w.getLast? = some ';') :
    CallText.Proper { c with text := c.text ++ w } where
  opens := (h.append w).opens
  closes := by rw [List.getLast?_append, hw]; rfl
  inside := by
    intro e he
    obtain ⟨x, y, z, ht, hr, hx, hy⟩ := h.inside e he
    refine ⟨x, y, z ++ w, by simp [ht], hr, hx, hy, ?_⟩
    rintro h0
    simp [(List.append_eq_nil_iff.1 h0).2] at hw
  apart := h.apart

end CallText.Begun

namespace CallShape

theorem begun_of_writeFragment {s : CallShape} {count : Nat} {values : NameMap Value}
    {next : Option Fragment} {c d : CallText} {f : Fragment} (h : c.Begun)
    (hw : s.writeFragment count values next c f = some d) : d.Begun := by
  cases f with
  | literal t =>
    simp only [writeFragment, Option.some.injEq] at hw
    exact hw ▸ h.append t.toList
  | separator =>
    simp only [writeFragment] at hw
    split at hw
    · rename_i i
      split at hw
      · exact (Option.some.inj hw) ▸ h.append [',', ' ']
      · exact (Option.some.inj hw) ▸ h
    · exact (Option.some.inj hw) ▸ h
  | param i =>
    simp only [writeFragment] at hw
    split at hw
    · simp only [Option.bind_eq_bind, Option.bind_eq_some_iff, Option.pure_def,
        Option.some.injEq] at hw
      obtain ⟨p, -, v, -, rfl⟩ := hw
      exact h.argument p.name v.source_ne_nil
    · exact (Option.some.inj hw) ▸ h

theorem proper_of_writeFragments {s : CallShape} {count : Nat} {values : NameMap Value}
    {c d : CallText} {fs : List Fragment} {w : String} (h : c.Begun)
    (hl : w.toList.getLast? = some ';')
    (hw : s.writeFragments count values c (fs ++ [.literal w]) = some d) : d.Proper := by
  induction fs generalizing c with
  | nil =>
    simp only [List.nil_append, writeFragments, writeFragment, Option.bind_eq_bind,
      Option.bind_some, Option.some.injEq] at hw
    exact hw ▸ h.finish hl
  | cons f fs ih =>
    simp only [List.cons_append, writeFragments, Option.bind_eq_bind, Option.bind_eq_some_iff] at hw
    obtain ⟨b, hb, hw⟩ := hw
    exact ih (begun_of_writeFragment h hb) hw

theorem proper_of_write? {s : CallShape} {values : NameMap Value} {c : CallText}
    (h : s.write? values = some c) : c.Proper := by
  simp only [write?, fragments, List.cons_append, writeFragments, writeFragment,
    Option.bind_eq_bind, Option.bind_some] at h
  refine proper_of_writeFragments ?_ (by decide) h
  exact ⟨by simp, by simp, .nil⟩

end CallShape

end RoutineSync
