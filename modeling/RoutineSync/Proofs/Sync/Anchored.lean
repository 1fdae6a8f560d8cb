import RoutineSync.Action.Step
import RoutineSync.Proofs.Call.Layout
/-!
Calls that stand in a text where their sites say, one behind the other.
-/
set_option autoImplicit false

namespace RoutineSync

/-- A site's text stands at its place. -/
structure CallSite.LiesIn (s : CallSite) (t : Text) : Prop where
  stands : t.StandsAt s.start s.text
  stop_eq : s.stop = s.start + s.text.size
  ne_nil : s.text ≠ []

/-- A site's text stands at its place, from the word that opens a call to the semicolon. -/
structure CallSite.SpansIn (s : CallSite) (t : Text) : Prop where
  stands : t.StandsAt s.start s.text
  stop_eq : s.stop = s.start + s.text.size
  opens : "auton".toList <+: s.text
  closes : s.text.getLast? = some ';'

/-- A site's call stands at its place, and its parameters have ranges in it. -/
structure CallSite.StandsIn (s : CallSite) (t : Text) : Prop where
  stands : t.StandsAt s.start s.text
  stop_eq : s.stop = s.start + s.text.size
  proper : CallText.Proper ⟨s.text, s.params⟩

namespace CallSite.LiesIn
variable {s : CallSite} {t : Text}

theorem start_lt_stop (h : s.LiesIn t) : s.start < s.stop := by
  have := Text.size_pos_of_ne_nil h.ne_nil
  have := h.stop_eq
  omega

theorem stop_le_size (h : s.LiesIn t) : s.stop ≤ t.size := by
  rw [h.stop_eq]
  exact h.stands.le_size

theorem isPlace (h : s.LiesIn t) : t.isPlace s.start = true ∧ t.isPlace s.stop = true := by
  obtain ⟨u, v, rfl, hu⟩ := h.stands
  refine ⟨Text.isPlace_iff.2 ⟨u, s.text ++ v, List.append_assoc _ _ _, hu⟩,
    Text.isPlace_iff.2 ⟨u ++ s.text, v, rfl, ?_⟩⟩
  rw [Text.size_append, h.stop_eq, hu]

end CallSite.LiesIn

theorem CallSite.SpansIn.liesIn {s : CallSite} {t : Text} (h : s.SpansIn t) : s.LiesIn t where
  stands := h.stands
  stop_eq := h.stop_eq
  ne_nil h0 := by
    have := h.closes
    simp [h0] at this

theorem CallText.Proper.ne_nil {c : CallText} (h : c.Proper) : c.text ≠ [] := by
  intro h0
  simpa [h0] using h.closes

namespace CallSite.StandsIn
variable {s : CallSite} {t : Text}

theorem spansIn (h : s.StandsIn t) : s.SpansIn t :=
  ⟨h.stands, h.stop_eq, h.proper.opens, h.proper.closes⟩

theorem start_lt_stop (h : s.StandsIn t) : s.start < s.stop := h.spansIn.liesIn.start_lt_stop

theorem stop_le_size (h : s.StandsIn t) : s.stop ≤ t.size := h.spansIn.liesIn.stop_le_size

theorem append (h : s.StandsIn t) (u v : Text) :
    CallSite.StandsIn ⟨u.size + s.start, u.size + s.stop, s.text, s.params⟩ (u ++ t ++ v) where
  stands := h.stands.append u v
  stop_eq := by rw [h.stop_eq, Nat.add_assoc]
  proper := h.proper

end CallSite.StandsIn

/-- Sites of calls that stand in a text, one behind the other. -/
structure Anchored (t : Text) (sites : List CallSite) : Prop where
  stands : ∀ s ∈ sites, s.StandsIn t
  ordered : sites.Pairwise fun s r => s.stop ≤ r.start

/-- Sites whose texts stand in a text like calls, one behind the other. -/
structure Aligned (t : Text) (sites : List CallSite) : Prop where
  spans : ∀ s ∈ sites, s.SpansIn t
  ordered : sites.Pairwise fun s r => s.stop ≤ r.start

/-- And the parameters of each have ranges in it. -/
structure Marked (t : Text) (sites : List CallSite) : Prop extends Aligned t sites where
  ranged : ∀ s ∈ sites, CallText.Ranged ⟨s.text, s.params⟩

theorem Anchored.marked {t : Text} {sites : List CallSite} (h : Anchored t sites) :
    Marked t sites where
  spans s hs := (h.stands s hs).spansIn
  ordered := h.ordered
  ranged s hs := (h.stands s hs).proper.ranged

theorem Step.exists_site {steps : List Step} {sites : List CallSite}
    (h : steps.map (·.site) = sites.map some) {x : Step} (hx : x ∈ steps) :
    ∃ s ∈ sites, x.site = some s := by
  have hmem : x.site ∈ sites.map some := h ▸ List.mem_map_of_mem hx
  obtain ⟨s, hs, heq⟩ := List.mem_map.1 hmem
  exact ⟨s, hs, heq.symm⟩

theorem parts_eq (sites : List CallSite) (index count : Nat) :
    sites.take index ++ (((sites.drop index).take count).map some).reduceOption
      ++ sites.drop (index + count) = sites := by
  have hmiddle : (((sites.drop index).take count).map some).reduceOption
      = (sites.drop index).take count := (List.filterMap_map).trans List.filterMap_some
  rw [hmiddle, List.append_assoc, ← List.drop_drop, List.take_append_drop, List.take_append_drop]

def sitesOf (steps : List Step) : List CallSite := steps.filterMap (·.site)

theorem mem_sitesOf_iff {steps : List Step} {s : CallSite} :
    s ∈ sitesOf steps ↔ ∃ x ∈ steps, x.site = some s := List.mem_filterMap

theorem sitesOf_eq {steps : List Step} {sites : List CallSite}
    (h : steps.map (·.site) = sites.map some) : sitesOf steps = sites := by
  have : (steps.map (·.site)).filterMap id = (sites.map some).filterMap id := by rw [h]
  rw [List.filterMap_map, List.filterMap_map] at this
  exact this.trans List.filterMap_some

theorem sitesOf_parts (steps : List Step) (index count : Nat) :
    sitesOf (steps.take index) ++ (((steps.drop index).take count).map (·.site)).reduceOption
      ++ sitesOf (steps.drop (index + count)) = sitesOf steps := by
  have hmiddle : (((steps.drop index).take count).map (·.site)).reduceOption
      = sitesOf ((steps.drop index).take count) := List.filterMap_map
  rw [hmiddle, ← List.drop_drop, sitesOf, sitesOf, sitesOf, List.append_assoc,
    ← List.filterMap_append, List.take_append_drop, ← List.filterMap_append, List.take_append_drop,
    sitesOf]

end RoutineSync
