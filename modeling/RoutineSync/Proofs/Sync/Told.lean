import RoutineSync.Proofs.Scan.Legible
import RoutineSync.Proofs.Sync.Starts
/-!
Texts in which the calls of steps are told: a scan finds these calls and nothing else. Edits for
steps whose actions do not say the word that calls start with keep them so.
-/
set_option autoImplicit false

namespace RoutineSync

/-- The step stands where a call is scanned, which means what is written for the step. -/
def Step.Matches (x : Step) (c : ScannedCall) : Prop :=
  x.site = some c.site ∧ c.action.eqv x.action.filled = true

/-- The calls of the steps tell their actions, and the word that calls start with stands nowhere else
in the text. -/
structure Told (t : Text) (steps : List Step) : Prop where
  opens : ∀ n, t.Opens n ↔ ∃ a ∈ sitesOf steps, a.start = n
  tells : ∀ x ∈ steps, ∀ a, x.site = some a → CallText.Tells ⟨a.text, a.params⟩ x.action

section
variable {α β : Type} {R : α → β → Prop}

theorem exists_of_forall₂ {xs : List α} {ys : List β} (h : List.Forall₂ R xs ys) {x : α} (hx : x ∈ xs) :
    ∃ y ∈ ys, R x y := by
  induction h with
  | nil => exact absurd hx List.not_mem_nil
  | @cons a b xs ys hab _ ih =>
    rcases List.mem_cons.1 hx with rfl | hx
    · exact ⟨b, List.mem_cons_self, hab⟩
    · obtain ⟨y, hy, hxy⟩ := ih hx
      exact ⟨y, List.mem_cons_of_mem _ hy, hxy⟩

theorem exists_forall₂ {xs : List α} (h : ∀ x ∈ xs, ∃ y, R x y) : ∃ ys, List.Forall₂ R xs ys := by
  induction xs with
  | nil => exact ⟨[], .nil⟩
  | cons x xs ih =>
    obtain ⟨⟨y, hy⟩, hxs⟩ := List.forall_mem_cons.1 h
    obtain ⟨ys, hys⟩ := ih hxs
    exact ⟨y :: ys, .cons hy hys⟩

end

theorem sites_of_matches {steps : List Step} {cs : List ScannedCall} (h : List.Forall₂ Step.Matches steps cs) :
    steps.map (·.site) = (cs.map (·.site)).map some := by
  induction h with
  | nil => rfl
  | cons hx _ ih => rw [List.map_cons, List.map_cons, List.map_cons, ih, hx.1]

namespace Told
variable {t : Text} {steps : List Step} {sites : List CallSite}

theorem of_legible (h : List.Forall₂ Step.Matches steps (scan t)) (ht : t.Legible) : Told t steps := by
  refine ⟨fun n => ?_, fun x hx a hxa => ?_⟩
  · rw [sitesOf_eq (sites_of_matches h), ht.opens_iff]
    simp only [List.mem_map, exists_exists_and_eq_and]
  · obtain ⟨c, hc, hsite, heqv⟩ := exists_of_forall₂ h hx
    obtain rfl := Option.some.inj (hsite.symm.trans hxa)
    exact (ht.unblocked c hc).tells heqv

theorem legible (h : Told t steps) (hsites : steps.map (·.site) = sites.map some) (ha : Anchored t sites) :
    List.Forall₂ Step.Matches steps (scan t) ∧ t.Legible := by
  obtain ⟨cs, hcs⟩ := exists_forall₂ (R := fun x c => Step.Matches x c ∧ c.Unblocked) fun x hx => by
    obtain ⟨a, hm, hxa⟩ := Step.exists_site hsites hx
    obtain ⟨c, rfl, heqv, hc⟩ := (h.tells x hx a hxa).exists_call (ha.stands a hm).stop_eq
    exact ⟨c, ⟨hxa, heqv⟩, hc⟩
  have hmatches := hcs.imp fun _ _ hx => hx.1
  have hunblocked : ∀ c ∈ cs, c.Unblocked := fun c hc => by
    obtain ⟨x, -, -, hx⟩ := exists_of_forall₂ hcs.flip hc
    exact hx
  obtain rfl : sites = cs.map (·.site) :=
    List.map_injective_iff.2 (Option.some_injective _) (hsites.symm.trans (sites_of_matches hmatches))
  obtain ⟨hscan, hlegible⟩ := Text.legible_of_opens hunblocked ha fun n => by
    rw [h.opens, sitesOf_eq hsites]
    simp only [List.mem_map, exists_exists_and_eq_and]
  exact ⟨hscan ▸ hmatches, hlegible⟩

end Told

namespace Rewrite.Synthesis
variable {t : Text} {ss : List Step} {pre post : List CallSite} {rep : List (Option CallSite)}
  {r : Rewrite}

/-- Where the calls that are patched tell the new actions, all calls that are written do. -/
theorem tells_settled (s : Synthesis t ss pre rep post r) (hn : (ss.map (·.id)).Nodup)
    (ha : Marked t (pre ++ rep.reduceOption ++ post))
    (hs : (TextEdit.applyAll r.edits t).size ≤ maxPlace)
    (hpatched : ∀ p ∈ s.patchings, CallText.Tells ⟨p.site.text, p.site.params⟩ p.step.action)
    {x : Step} (hx : x ∈ ss) :
    CallText.Tells ⟨(settled r x.id).text, (settled r x.id).params⟩ x.action := by
  rcases s.patching_or_run hx with ⟨p, hp, rfl⟩ | ⟨i, hi, hxi⟩
  · rw [(s.settled_eq_patched hn hp).2]
    exact hpatched p hp
  · obtain ⟨hw, heq⟩ := Action.generate_eq_ok_iff.1 (s.generate_of_run hn ha hs hi hxi)
    rw [heq]
    exact Action.tells_written hw

end Rewrite.Synthesis

namespace Told
variable {t : Text} {steps : List Step} {sites : List CallSite} {e : RoutineEdit} {r : Rewrite}

/-- Where steps are told, rewriting for an edit of them keeps the calls that it patches. -/
theorem worded (h : Told t steps) (hsites : steps.map (·.site) = sites.map some) (ha : Anchored t sites)
    (hsilent : ∀ x ∈ e.steps, x.action.Silent)
    (m : Rewrite.Synthesis t e.steps (sites.take e.index) (((sites.drop e.index).take e.count).map some)
      (sites.drop (e.index + e.count)) r)
    (hm : ∀ p ∈ m.patchings, p.Continues ((steps.drop e.index).take e.count)) :
    m.Worded ∧ ∀ p ∈ m.patchings, CallText.Tells ⟨p.site.text, p.site.params⟩ p.step.action := by
  have hparts := parts_eq sites e.index e.count
  have hpatch : ∀ p ∈ m.patchings, ∃ old, CallText.Tells ⟨p.old.text, p.old.params⟩ old ∧
      p.old.patchTo old p.step.action = .ok (p.edits, p.site) := fun p hp => by
    obtain ⟨old, hold, hsite, hpatch⟩ := hm p hp
    have hmem : old ∈ steps := List.mem_of_mem_drop (List.mem_of_mem_take (List.mem_of_getElem? hold))
    exact ⟨old.action, h.tells old hmem p.old hsite, hpatch⟩
  refine ⟨⟨hparts.symm ▸ ha.marked, fun a hm => ?_, fun p hp => ?_, hsilent⟩, fun p hp => ?_⟩
  · rw [hparts] at hm
    exact ((h.opens a.start).2 ⟨a, (sitesOf_eq hsites).symm ▸ hm, rfl⟩).wordAt
  · obtain ⟨old, htells, hpatch⟩ := hpatch p hp
    have hmem := List.mem_map_of_mem (f := (·.1)) (m.mem_shares hp)
    rw [m.steps_eq] at hmem
    exact htells.reworded_or_anew hpatch (hsilent _ hmem)
  · obtain ⟨old, htells, hpatch⟩ := hpatch p hp
    exact htells.patchTo hpatch

end Told

end RoutineSync
