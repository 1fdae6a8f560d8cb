import RoutineSync.Proofs.Call.Written
import RoutineSync.Proofs.Operations
import RoutineSync.Proofs.Result
import RoutineSync.Proofs.Sync.Patch
import RoutineSync.Sync.Rewrite
/-!
How an edit's steps are shared out: those paired with a replaced step, in the order of the slots, and
the runs of new ones between them, which are written one call after the other.
-/
set_option autoImplicit false

namespace RoutineSync.Rewrite

section
variable {slot : Nat} {s : Step} {ss replaced : List Step}

theorem pairs_nil : pairs slot [] replaced = [] := rfl

theorem pairs_cons_of_some {i : Nat} (h : replaced.findIdx? (continues s) = some i) :
    pairs slot (s :: ss) replaced
      = some (slot + i) :: pairs (slot + i + 1) ss (replaced.drop (i + 1)) := by
  unfold pairs
  rw [Operations.pairs, h]
  rfl

theorem pairs_cons_of_none (h : replaced.findIdx? (continues s) = none) :
    pairs slot (s :: ss) replaced = none :: pairs slot ss replaced := by
  unfold pairs
  rw [Operations.pairs, h]
  rfl

end

theorem length_pairs (slot : Nat) (ss replaced : List Step) :
    (pairs slot ss replaced).length = ss.length := by
  induction ss generalizing slot replaced with
  | nil => rfl
  | cons s ss ih =>
    cases h : replaced.findIdx? (continues s) with
    | some i => rw [pairs_cons_of_some h, List.length_cons, ih, List.length_cons]
    | none => rw [pairs_cons_of_none h, List.length_cons, ih, List.length_cons]

/-- A step is paired with a replaced one of its identity and kind that stands in the text. -/
theorem exists_of_mem_pairs {slot : Nat} {ss replaced : List Step} {s : Step} {k : Nat}
    (h : (s, some k) ∈ ss.zip (pairs slot ss replaced)) :
    slot ≤ k ∧ ∃ old, replaced[k - slot]? = some old ∧ old.id = s.id ∧ old.kind = s.kind ∧
      old.site.isSome = true := by
  induction ss generalizing slot replaced with
  | nil => cases h
  | cons r ss ih =>
    cases hi : replaced.findIdx? (continues r) with
    | some i =>
      rw [pairs_cons_of_some hi, List.zip_cons_cons, List.mem_cons] at h
      rcases h with h | h
      · simp only [Prod.mk.injEq, Option.some.injEq] at h
        obtain ⟨rfl, rfl⟩ := h
        obtain ⟨hlt, hc, -⟩ := List.findIdx?_eq_some_iff_getElem.1 hi
        simp only [continues, Bool.and_eq_true, beq_iff_eq] at hc
        refine ⟨Nat.le_add_right _ _, replaced[i], ?_, hc.1.1, hc.1.2, hc.2⟩
        rw [Nat.add_sub_cancel_left]
        exact List.getElem?_eq_getElem hlt
      · obtain ⟨hle, old, hold, hrest⟩ := ih h
        refine ⟨by omega, old, ?_, hrest⟩
        rw [List.getElem?_drop] at hold
        rw [← hold]
        congr 1
        omega
    | none =>
      rw [pairs_cons_of_none hi, List.zip_cons_cons, List.mem_cons] at h
      rcases h with h | h
      · simp at h
      · exact ih h

theorem sited_of_mem_pairs {ss replaced : List Step} :
    ∀ p ∈ ss.zip (pairs 0 ss replaced), ∀ k, p.2 = some k →
      ∃ old, replaced[k]? = some old ∧ old.site.isSome = true := by
  rintro ⟨s, o⟩ hp k rfl
  obtain ⟨-, old, hold, -, -, hsite⟩ := exists_of_mem_pairs hp
  exact ⟨old, hold, hsite⟩

theorem pairwise_pairs (slot : Nat) (ss replaced : List Step) :
    (ss.zip (pairs slot ss replaced)).Pairwise fun a b =>
      ∀ i j, a.2 = some i → b.2 = some j → i < j := by
  induction ss generalizing slot replaced with
  | nil => exact .nil
  | cons r ss ih =>
    cases hi : replaced.findIdx? (continues r) with
    | some i =>
      rw [pairs_cons_of_some hi, List.zip_cons_cons]
      refine .cons (fun p hp i j hi hj => ?_) (ih _ _)
      obtain ⟨s, o⟩ := p
      simp only [Option.some.injEq] at hi hj
      subst hj
      have := (exists_of_mem_pairs hp).1
      omega
    | none =>
      rw [pairs_cons_of_none hi, List.zip_cons_cons]
      exact .cons (fun p hp i j hi hj => by simp at hi) (ih _ _)

/-- The maximal runs of unpaired steps, each with the slots paired right before and right after it.
The run read so far is given in reverse. -/
def runs (previous : Option Nat) : List (Step × Option Nat) → List Step →
    List (Option Nat × List Step × Option Nat)
  | [], run => if run.isEmpty then [] else [(previous, run.reverse, none)]
  | (s, none) :: rest, run => runs previous rest (s :: run)
  | (_, some slot) :: rest, run =>
    (if run.isEmpty then [] else [(previous, run.reverse, some slot)]) ++ runs (some slot) rest []

/-- What has been read of a run, where the run ends. -/
def finished (previous : Option Nat) (acc : List Step) (next : Option Nat) :
    List (Option Nat × List Step × Option Nat) :=
  if acc.isEmpty then [] else [(previous, acc.reverse, next)]

theorem mem_finished_iff {previous next : Option Nat} {acc : List Step}
    {r : Option Nat × List Step × Option Nat} :
    r ∈ finished previous acc next ↔ acc ≠ [] ∧ r = (previous, acc.reverse, next) := by
  cases acc <;> simp [finished]

theorem pairwise_finished (previous next : Option Nat) (acc : List Step)
    (R : Option Nat × List Step × Option Nat → Option Nat × List Step × Option Nat → Prop) :
    (finished previous acc next).Pairwise R := by
  unfold finished
  split
  · exact .nil
  · exact List.pairwise_singleton _ _

theorem runs_paired (q : Option Nat) (s : Step) (k : Nat) (rest : List (Step × Option Nat))
    (acc : List Step) : runs q ((s, some k) :: rest) acc
      = finished q acc (some k) ++ runs (some k) rest [] := rfl

/-- A run is read up to the next paired step, and from there on as if there had been none. -/
theorem runs_cons {acc : List Step} (hacc : acc ≠ []) (previous any : Option Nat)
    (zs : List (Step × Option Nat)) :
    let n := zs.findIdx (·.2.isSome)
    runs previous zs acc
      = (previous, acc.reverse ++ (zs.take n).map (·.1), ((zs.drop n).map (·.2)).findSome? id)
        :: runs any (zs.drop n) [] := by
  induction zs generalizing acc with
  | nil => simp [runs, hacc]
  | cons z zs ih =>
    obtain ⟨s, _ | slot⟩ := z
    · simp [runs, List.findIdx_cons, ih (List.cons_ne_nil s acc)]
    · simp [runs, List.findIdx_cons, hacc]

theorem exists_drop_zip {ss left : List Step} {s : Step} {pairing : List (Option Nat)}
    {position : Nat} (hl : pairing.length = ss.length) (hs : ss.drop position = s :: left) :
    ∃ pair, position < ss.length ∧ ss.drop (position + 1) = left ∧
      pairing[position]? = some pair ∧
      pairing.drop position = pair :: pairing.drop (position + 1) ∧
      (ss.zip pairing).drop position = (s, pair) :: (ss.zip pairing).drop (position + 1) := by
  have hlt : position < ss.length := by
    refine Nat.lt_of_not_le fun hle => ?_
    rw [List.drop_of_length_le hle] at hs
    cases hs
  rw [List.drop_eq_getElem_cons hlt, List.cons.injEq] at hs
  obtain ⟨rfl, rfl⟩ := hs
  have hlt' : position < pairing.length := hl ▸ hlt
  refine ⟨pairing[position], hlt, rfl, List.getElem?_eq_getElem hlt',
    List.drop_eq_getElem_cons hlt', ?_⟩
  rw [List.drop_eq_getElem_cons (by rw [List.length_zip]; omega), List.getElem_zip]

/-- The run from an unpaired step on ends before the next paired one. -/
theorem runs_at {ss left : List Step} {s : Step} {pairing : List (Option Nat)} {position : Nat}
    (hl : pairing.length = ss.length) (hs : ss.drop position = s :: left)
    (hpair : pairing[position]? = some none) (previous any : Option Nat) :
    let stop := position + (pairing.drop position).findIdx Option.isSome
    position < stop ∧ stop ≤ ss.length ∧ runs previous ((ss.zip pairing).drop position) []
      = (previous, (ss.drop position).take (stop - position), (pairing.drop stop).findSome? id)
        :: runs any ((ss.zip pairing).drop stop) [] := by
  obtain ⟨_, hlt, hss, hpair', hp, hzip⟩ := exists_drop_zip hl hs
  obtain rfl := Option.some.inj (hpair.symm.trans hpair')
  have hsnd : ∀ n, ((ss.zip pairing).drop n).map (·.2) = pairing.drop n := fun n => by
    rw [List.map_drop, List.map_snd_zip (Nat.le_of_eq hl)]
  have hfst : ∀ n, ((ss.zip pairing).drop n).map (·.1) = ss.drop n := fun n => by
    rw [List.map_drop, List.map_fst_zip (Nat.le_of_eq hl.symm)]
  obtain ⟨n, hn⟩ : ∃ n, n = (pairing.drop (position + 1)).findIdx Option.isSome := ⟨_, rfl⟩
  have hfind : ((ss.zip pairing).drop (position + 1)).findIdx (·.2.isSome) = n := by
    rw [hn, ← hsnd, List.findIdx_map]
    rfl
  have hstop : position + (pairing.drop position).findIdx Option.isSome = position + 1 + n := by
    rw [hp, List.findIdx_cons, hn, Option.isSome_none, cond_false]
    omega
  have hle : position + 1 + n ≤ ss.length := by
    have := @List.findIdx_le_length _ Option.isSome (pairing.drop (position + 1))
    rw [← hn, List.length_drop] at this
    omega
  have hrun : (ss.drop position).take (position + 1 + n - position)
      = [s].reverse ++ (ss.drop (position + 1)).take n := by
    rw [show position + 1 + n - position = n + 1 by omega, hs, hss]
    rfl
  rw [hstop]
  refine ⟨by omega, hle, ?_⟩
  rw [hzip, runs, runs_cons (List.cons_ne_nil s []) _ any, hfind, List.drop_drop, hsnd,
    List.map_take, hfst, ← hrun]

end RoutineSync.Rewrite

namespace RoutineSync.Operations.Faithful
variable {m : Type → Type} [Monad m] [LawfulMonad m] {o : Operations m}

theorem pairs (h : o.Faithful) (slot : Nat) (ss replaced : List Step) :
    Follows (o.pairs slot ss replaced) (Operations.plain.pairs slot ss replaced) := by
  induction ss generalizing slot replaced with
  | nil => exact .pure _
  | cons s ss ih =>
    rw [Operations.pairs, Operations.pairs]
    cases hi : replaced.findIdx? (Rewrite.continues s) with
    | some i =>
      have hlt := (List.findIdx?_eq_some_iff_getElem.1 hi).1
      exact (h.rest hlt).bind ((ih _ _).bind (.pure _))
    | none => exact (ih _ _).bind (.pure _)

/-- The runs are read off the pairing, outside a run and inside one. -/
theorem runs (h : o.Faithful) {ss : List Step} {pairing : List (Option Nat)}
    (hl : pairing.length = ss.length) (any : Option Nat) {left : List Step} {position : Nat}
    (hs : ss.drop position = left) :
    Follows (o.runs ss pairing position false left)
        (pure (Rewrite.runs ((pairing.take position).reverse.findSome? id)
          ((ss.zip pairing).drop position) [])) ∧
      Follows (o.runs ss pairing position true left)
        (pure (Rewrite.runs any ((ss.zip pairing).drop
          (position + (pairing.drop position).findIdx Option.isSome)) [])) := by
  induction left generalizing position with
  | nil =>
    have hle := List.drop_eq_nil_iff.1 hs
    have hend : ∀ n, position ≤ n → (ss.zip pairing).drop n = [] := fun n hn =>
      List.drop_of_length_le (by rw [List.length_zip]; omega)
    rw [hend _ (Nat.le_refl _), hend _ (Nat.le_add_right _ _)]
    exact ⟨.pure _, .pure _⟩
  | cons s left ih =>
    obtain ⟨pair, hlt, hs', hpair, hp, hzip⟩ := Rewrite.exists_drop_zip hl hs
    obtain ⟨houtside, hinside⟩ := ih hs'
    have hget : Follows (o.get? pairing position) (pure (some pair)) :=
      hpair ▸ h.get? (hl.symm ▸ hlt)
    cases pair with
    | some k =>
      have hprevious : (pairing.take (position + 1)).reverse.findSome? id = some k := by
        rw [List.take_add_one, hpair]
        simp
      rw [hprevious] at houtside
      rw [hp, show (some k :: pairing.drop (position + 1)).findIdx Option.isSome = 0 from rfl,
        Nat.add_zero, hzip]
      exact ⟨hget.step houtside, hget.step houtside⟩
    | none =>
      obtain ⟨hpos, hstop, hrun⟩ :=
        Rewrite.runs_at hl hs hpair ((pairing.take position).reverse.findSome? id) any
      have hinside' : position + (pairing.drop position).findIdx Option.isSome
          = position + 1 + (pairing.drop (position + 1)).findIdx Option.isSome := by
        rw [hp, List.findIdx_cons, Option.isSome_none, cond_false]
        omega
      rw [← hinside'] at hinside
      constructor
      · rw [hrun]
        refine hget.step (.step (h.rest (Nat.le_of_lt (hl.symm ▸ hlt))) ?_)
        refine .step (h.sub (Nat.le_of_lt hpos)) (.step (h.range ?_) ?_)
        · show position + (position + (pairing.drop position).findIdx Option.isSome - position) ≤ _
          omega
        · exact .step (h.rest (hl.symm ▸ hstop)) (.step (h.range (by omega)) (.step hinside (.pure _)))
      · exact hget.step hinside

end RoutineSync.Operations.Faithful

namespace RoutineSync.Rewrite

theorem run_plain_runs {ss : List Step} {pairing : List (Option Nat)}
    (hl : pairing.length = ss.length) :
    (Operations.plain.runs ss pairing 0 false ss).run = runs none (ss.zip pairing) [] :=
  (Operations.faithful_plain.runs hl none rfl).1

/-- Runs of steps and the paired ones between them follow one another, when they do so run by run. -/
theorem pairwise_of_runs {f : Step → CallSite} {lower upper : Option Nat → Nat}
    {q : Option Nat} {l : List (Step × Option Nat)} {acc : List Step}
    (inRun : ∀ r ∈ runs q l acc, r.2.1.Pairwise (fun x y => (f x).stop ≤ (f y).start) ∧
      ∀ x ∈ r.2.1, lower r.1 ≤ (f x).start ∧ (f x).stop ≤ upper r.2.2)
    (paired : ∀ p ∈ l, ∀ k, p.2 = some k → (f p.1).start = upper (some k) ∧
      (f p.1).stop = lower (some k) ∧ upper (some k) ≤ lower (some k) ∧
      lower q ≤ upper (some k) ∧ lower (some k) ≤ upper none)
    (order : l.Pairwise fun a b => ∀ i j, a.2 = some i → b.2 = some j →
      lower (some i) ≤ upper (some j)) :
    (acc.reverse ++ l.map (·.1)).Pairwise (fun x y => (f x).stop ≤ (f y).start) ∧
      ∀ x ∈ acc.reverse ++ l.map (·.1), lower q ≤ (f x).start ∧ (f x).stop ≤ upper none := by
  have emitted : ∀ (q : Option Nat) (acc : List Step) (n : Option Nat),
      (∀ r ∈ finished q acc n, r.2.1.Pairwise (fun x y => (f x).stop ≤ (f y).start) ∧
        ∀ x ∈ r.2.1, lower r.1 ≤ (f x).start ∧ (f x).stop ≤ upper r.2.2) →
      acc.reverse.Pairwise (fun x y => (f x).stop ≤ (f y).start) ∧
        ∀ x ∈ acc.reverse, lower q ≤ (f x).start ∧ (f x).stop ≤ upper n := by
    intro q acc n h
    cases acc with
    | nil => exact ⟨.nil, by simp⟩
    | cons a acc => exact h _ (mem_finished_iff.2 ⟨List.cons_ne_nil a acc, rfl⟩)
  induction l generalizing q acc with
  | nil =>
    rw [List.map_nil, List.append_nil]
    exact emitted q acc none inRun
  | cons p rest ih =>
    obtain ⟨s, o⟩ := p
    obtain ⟨hfirst, horder⟩ := List.pairwise_cons.1 order
    cases o with
    | none =>
      have := ih inRun (fun p hp => paired p (List.mem_cons_of_mem _ hp)) horder
      simpa [List.append_assoc] using this
    | some k =>
      obtain ⟨hs, ht, hst, hq, hu⟩ := paired _ List.mem_cons_self k rfl
      obtain ⟨hacc, hin⟩ := emitted q acc (some k) fun r hr => inRun r (List.mem_append_left _ hr)
      obtain ⟨hrest, hin'⟩ := ih (fun r hr => inRun r (List.mem_append_right _ hr))
        (fun p hp j hj => by
          obtain ⟨h1, h2, h3, -, h5⟩ := paired p (List.mem_cons_of_mem _ hp) j hj
          exact ⟨h1, h2, h3, hfirst p hp k j rfl hj, h5⟩) horder
      simp only [List.reverse_nil, List.nil_append] at hrest hin'
      simp only at hs ht
      constructor
      · rw [List.map_cons, List.pairwise_append, List.pairwise_cons]
        refine ⟨hacc, ⟨fun y hy => ?_, hrest⟩, fun x hx y hy => ?_⟩
        · have := (hin' y hy).1
          simp only
          omega
        · have h1 := (hin x hx).2
          rcases List.mem_cons.1 hy with rfl | hy
          · omega
          · have := (hin' y hy).1
            omega
      · intro x hx
        rw [List.map_cons, List.mem_append, List.mem_cons] at hx
        rcases hx with hx | rfl | hx
        · have := hin x hx
          omega
        · omega
        · have := hin' x hx
          omega

theorem flatMap_runs (q : Option Nat) (l : List (Step × Option Nat)) (acc : List Step) :
    (runs q l acc).flatMap (·.2.1)
      = acc.reverse ++ (l.filter fun p => p.2.isNone).map (·.1) := by
  induction l generalizing q acc with
  | nil => cases acc <;> simp [runs]
  | cons p rest ih =>
    obtain ⟨s, o⟩ := p
    cases o with
    | none => simp [runs, ih]
    | some k => cases acc <;> simp [runs, ih]

theorem ne_nil_of_mem_runs {q : Option Nat} {l : List (Step × Option Nat)} {acc : List Step}
    {r : Option Nat × List Step × Option Nat} (h : r ∈ runs q l acc) : r.2.1 ≠ [] := by
  have emitted : ∀ (q : Option Nat) (acc : List Step) (n : Option Nat),
      r ∈ finished q acc n → r.2.1 ≠ [] := by
    intro q acc n hr
    obtain ⟨hne, rfl⟩ := mem_finished_iff.1 hr
    exact mt List.reverse_eq_nil_iff.1 hne
  induction l generalizing q acc with
  | nil => exact emitted q acc none h
  | cons p rest ih =>
    obtain ⟨s, o⟩ := p
    cases o with
    | none => exact ih h
    | some k =>
      rcases List.mem_append.1 h with h | h
      · exact emitted q acc (some k) h
      · exact ih h

/-- The slots next to a run are those of paired steps, in order; a run with none on either side is
the only one, and nothing is paired. -/
theorem slots_of_mem_runs {q : Option Nat} {l : List (Step × Option Nat)} {acc : List Step}
    {r : Option Nat × List Step × Option Nat} (h : r ∈ runs q l acc)
    (order : l.Pairwise fun a b => ∀ i j, a.2 = some i → b.2 = some j → i < j)
    (lt : ∀ k, q = some k → ∀ p ∈ l, ∀ j, p.2 = some j → k < j) :
    (r.1 = q ∨ ∃ p ∈ l, ∃ k, p.2 = some k ∧ r.1 = some k) ∧ (r.2.2 = none ∨ ∃ p ∈ l, p.2 = r.2.2) ∧
      (∀ i j, r.1 = some i → r.2.2 = some j → i < j) ∧
      (r.1 = none → r.2.2 = none → ∀ p ∈ l, p.2 = none) := by
  induction l generalizing q acc with
  | nil =>
    obtain ⟨-, rfl⟩ := mem_finished_iff.1 h
    exact ⟨.inl rfl, .inl rfl, fun i j _ hj => absurd hj nofun, by simp⟩
  | cons p rest ih =>
    obtain ⟨s, o⟩ := p
    obtain ⟨hfirst, horder⟩ := List.pairwise_cons.1 order
    cases o with
    | none =>
      obtain ⟨h1, h2, h3, h4⟩ := ih h horder fun k hk p hp => lt k hk p (List.mem_cons_of_mem _ hp)
      refine ⟨h1.imp_right ?_, h2.imp_right ?_, h3, fun hq hn => ?_⟩
      · exact fun ⟨p, hp, k, hr⟩ => ⟨p, List.mem_cons_of_mem _ hp, k, hr⟩
      · exact fun ⟨p, hp, hr⟩ => ⟨p, List.mem_cons_of_mem _ hp, hr⟩
      · simpa using h4 hq hn
    | some k =>
      rcases List.mem_append.1 h with h | h
      · obtain ⟨-, rfl⟩ := mem_finished_iff.1 h
        exact ⟨.inl rfl, .inr ⟨_, List.mem_cons_self, rfl⟩,
          fun i j hi hj => lt i hi _ List.mem_cons_self j hj, by simp⟩
      · obtain ⟨h1, h2, h3, h4⟩ := ih h horder fun i hi p hp j hj =>
          Option.some.inj hi ▸ hfirst p hp k j rfl hj
        refine ⟨.inr ?_, h2.imp_right ?_, h3, fun hq hn => ?_⟩
        · rcases h1 with h1 | ⟨p, hp, j, hr⟩
          · exact ⟨_, List.mem_cons_self, k, rfl, h1⟩
          · exact ⟨p, List.mem_cons_of_mem _ hp, j, hr⟩
        · exact fun ⟨p, hp, hr⟩ => ⟨p, List.mem_cons_of_mem _ hp, hr⟩
        · rcases h1 with h1 | ⟨p, -, j, -, hr⟩
          · simp [hq] at h1
          · simp [hq] at hr

/-- Between two runs there is a paired step. -/
theorem pairwise_runs {q : Option Nat} {l : List (Step × Option Nat)} {acc : List Step}
    (order : l.Pairwise fun a b => ∀ i j, a.2 = some i → b.2 = some j → i < j) :
    (runs q l acc).Pairwise fun r r' => ∃ i j, r.2.2 = some i ∧ r'.1 = some j ∧ i ≤ j := by
  induction l generalizing q acc with
  | nil => exact pairwise_finished q none acc _
  | cons p rest ih =>
    obtain ⟨s, o⟩ := p
    obtain ⟨hfirst, horder⟩ := List.pairwise_cons.1 order
    cases o with
    | none => exact ih horder
    | some k =>
      rw [runs_paired, List.pairwise_append]
      refine ⟨pairwise_finished q (some k) acc _, ih horder, fun r hr r' hr' => ?_⟩
      have hn : r.2.2 = some k := by rw [(mem_finished_iff.1 hr).2]
      obtain ⟨h1, -⟩ := slots_of_mem_runs hr' horder fun i hi p hp j hj =>
        Option.some.inj hi ▸ hfirst p hp k j rfl hj
      rcases h1 with h1 | ⟨p, hp, j, hpj, hr1⟩
      · exact ⟨k, k, hn, h1, Nat.le_refl k⟩
      · exact ⟨k, j, hn, hr1, Nat.le_of_lt (hfirst p hp k j rfl hpj)⟩

/-- Calls are written one after the other, each between the two texts that frame it. -/
theorem writeRun_eq_ok {lead trail text text' : Text} {ss : List Step} {placed placed' : List Placed}
    (h : writeRun lead trail ss text placed = .ok (text', placed')) :
    ∃ new, placed' = placed ++ new ∧
      new.map (fun w => (w.id, (.ok w.call : Except WriteError CallText)))
        = ss.map (fun s => (s.id, s.action.generate)) ∧
      text' = text ++ new.flatMap (fun w => lead ++ w.call.text ++ trail) ∧
      (∀ w ∈ new, text'.StandsAt w.offset w.call.text ∧ text.size ≤ w.offset) ∧
      new.Pairwise fun w v => w.offset + w.call.text.size ≤ v.offset := by
  induction ss generalizing text placed with
  | nil =>
    simp only [writeRun, Result.pure_eq_ok_iff, Prod.mk.injEq] at h
    exact ⟨[], by simp [h.2], rfl, by simp [h.1], by simp, .nil⟩
  | cons s ss ih =>
    rw [writeRun] at h
    obtain ⟨call, hcall, h⟩ := Result.bind_eq_ok_iff.1 h
    obtain ⟨new, rfl, hgen, rfl, hstands, hpair⟩ := ih h
    refine ⟨⟨s.id, (text ++ lead).size, call⟩ :: new, by simp, ?_, by simp, ?_, ?_⟩
    · simp [hgen, hcall]
    · intro w hw
      rcases List.mem_cons.1 hw with rfl | hw
      · refine ⟨⟨text ++ lead, trail ++ new.flatMap fun w => lead ++ w.call.text ++ trail, ?_, rfl⟩,
          by simp [Text.size_append]⟩
        simp
      · obtain ⟨h1, h2⟩ := hstands w hw
        refine ⟨h1, ?_⟩
        simp only [Text.size_append] at h2
        omega
    · refine .cons (fun w hw => ?_) hpair
      have := (hstands w hw).2
      simp only [Text.size_append] at this ⊢
      omega

def insertionPlace (size : Nat) : Option CallSite → Option CallSite → Nat
  | some next, _ => next.start
  | none, some previous => previous.stop
  | none, none => size

/-- What frames the calls of a run is blank. -/
theorem frame_eq {source : Source} {next previous : Option CallSite} {place : Nat}
    {head lead trail : Text}
    (h : (source.access.frame next previous : Id _).run = (place, head, lead, trail)) :
    place = insertionPlace source.size next previous ∧
      ∀ c ∈ head ++ lead ++ trail, Text.isBlank c = true := by
  have hindent : ∀ n, ∀ c ∈ indentation source n, Text.isBlank c = true := by
    intro n c hc
    have hspace := List.all_eq_true.1 List.all_takeWhile c hc
    simp only [Bool.or_eq_true, beq_iff_eq] at hspace
    rcases hspace with rfl | rfl <;> decide
  have hnewline : Text.isBlank '\n' = true := by decide
  have hline : ∀ n, ∀ c ∈ '\n' :: indentation source n, Text.isBlank c = true := by
    intro n
    simpa [hnewline] using hindent n
  cases next with
  | some next =>
    cases h
    exact ⟨rfl, hline next.start⟩
  | none =>
    cases previous with
    | some previous =>
      cases h
      refine ⟨rfl, fun c hc => ?_⟩
      rw [List.append_nil] at hc
      exact hline previous.start c hc
    | none =>
      cases h
      refine ⟨rfl, fun c hc => ?_⟩
      simp only [List.append_nil, List.mem_append, List.mem_singleton] at hc
      rcases hc with hc | rfl
      · split at hc
        · rw [List.mem_singleton.1 hc]
          exact hnewline
        · cases hc
      · exact hnewline

theorem insertion_of_frame {source : Source} {next previous : Option CallSite} {place : Nat}
    {head lead trail : Text}
    (h : (source.access.frame next previous : Id _).run = (place, head, lead, trail))
    (run : List Step) :
    insertion source run next previous
      = (writeRun lead trail run head []).map fun x => ⟨⟨⟨place, place⟩, x.1⟩, x.2⟩ := by
  have hframe : (source.access.frame next previous : Id _) = pure (place, head, lead, trail) := h
  rw [insertion, Access.insertion, hframe]
  refine (Result.run_bind (liftM (writeRun lead trail run head [])) _).trans ?_
  show writeRun lead trail run head [] >>= _ = _
  cases writeRun lead trail run head [] <;> rfl

theorem insertion_eq_ok {source : Source} {run : List Step} {next previous : Option CallSite}
    {p : Part} (h : insertion source run next previous = .ok p) :
    p.edit.range = ⟨insertionPlace source.size next previous,
        insertionPlace source.size next previous⟩ ∧
      ∃ head lead trail, writeRun lead trail run head [] = .ok (p.edit.text, p.placed) ∧
        ∀ c ∈ head ++ lead ++ trail, Text.isBlank c = true := by
  rw [insertion_of_frame rfl, Result.map_eq_ok_iff] at h
  obtain ⟨⟨text, placed⟩, hrun, rfl⟩ := h
  obtain ⟨hplace, hblank⟩ := @frame_eq source next previous _ _ _ _ rfl
  exact ⟨by rw [hplace], _, _, _, hrun, hblank⟩

end RoutineSync.Rewrite
