import RoutineSync.Proofs.Scan.Spread
import RoutineSync.Proofs.Sync.Telling
/-!
Texts that tell steps: their calls have no block comments, and the word that calls start with stands
nowhere else. A scan of such a text finds its calls, whatever stands around them.
-/
set_option autoImplicit false

namespace RoutineSync

namespace ScannedCall
variable {c : ScannedCall} {t : Text}

/-- A call without block comments between its tokens. -/
def Unblocked (c : ScannedCall) : Prop :=
  ∃ m, (CallShape.standard c.action.kind).Unblocked m ∧ ofMatch? c.action.kind c.site.start m = some c

theorem FoundIn.opens (h : c.FoundIn t) : t.Opens c.site.start := by
  obtain ⟨kind, lead, rest, m, rfl, hm, hc, hend⟩ := h
  obtain ⟨y, rfl, hy⟩ := CallShape.exists_haltsWord_of_match? hm
  exact ⟨lead, y, rfl, (site_of_ofMatch? hc).1.symm, hend, hy⟩

theorem FoundIn.unblocked (h : c.FoundIn t) (hc : ¬['/', '*'] <:+: c.site.text) : c.Unblocked := by
  obtain ⟨kind, lead, rest, m, rfl, hm, hcall, -⟩ := h
  obtain rfl := kind_of_ofMatch? hcall
  have hstart := (site_of_ofMatch? hcall).1
  obtain ⟨values, ranges, action, -, -, heq⟩ := ofMatch?_eq_some_iff.1 hcall
  refine ⟨m, CallShape.unblocked_of_match? hm ?_, by rw [hstart, hcall]⟩
  rw [heq] at hc
  exact hc

/-- What a call is read as is what would be written. -/
theorem FoundIn.eqv_filled (h : c.FoundIn t) : c.action.eqv c.action.filled = true := by
  obtain ⟨kind, lead, rest, m, -, hm, hcall, -⟩ := h
  obtain ⟨values, ranges, action, he, ha, rfl⟩ := ofMatch?_eq_some_iff.1 hcall
  exact CallShape.eqv_filled_of_match? hm he ha

theorem Unblocked.tells (h : c.Unblocked) {a : Action} (ha : c.action.eqv a.filled = true) :
    CallText.Tells ⟨c.site.text, c.site.params⟩ a := by
  obtain ⟨m, hm, hc⟩ := h
  have hkind : c.action.kind = a.kind := (Action.eqv_iff.1 ha).1.trans a.kind_filled
  rw [hkind] at hm hc
  obtain ⟨values, ranges, action, he, haction, heq⟩ := ofMatch?_eq_some_iff.1 hc
  rw [heq] at ha ⊢
  exact ⟨m, values, action, rfl, hm, he, haction, ha⟩

end ScannedCall

theorem CallText.Tells.exists_call {s : CallSite} {a : Action} (h : Tells ⟨s.text, s.params⟩ a)
    (hstop : s.stop = s.start + s.text.size) :
    ∃ c : ScannedCall, c.site = s ∧ c.action.eqv a.filled = true ∧ c.Unblocked := by
  obtain ⟨m, values, b, htext, hm, he, hb, heqv⟩ := h
  have hkind : b.kind = a.kind := Action.kind_of_ofParams? hb
  refine ⟨⟨b, s⟩, rfl, heqv, m, hkind ▸ hm, ?_⟩
  rw [ScannedCall.ofMatch?_eq_some_iff]
  refine ⟨values, s.params, b, he, hkind ▸ hb, ?_⟩
  obtain ⟨start, stop, text, params⟩ := s
  simp only at htext hstop
  rw [htext, hstop]

/-- The calls of a text have no block comments, and the word that they start with stands nowhere
else. -/
structure Text.Legible (t : Text) : Prop where
  unblocked : ∀ c ∈ scan t, c.Unblocked
  sole : ∀ n, t.Opens n → ∃ c ∈ scan t, c.site.start = n

theorem Text.Legible.opens_iff {t : Text} (h : t.Legible) {n : Nat} :
    t.Opens n ↔ ∃ c ∈ scan t, c.site.start = n := by
  refine ⟨h.sole n, ?_⟩
  rintro ⟨c, hc, rfl⟩
  exact (foundIn_of_mem_scan hc).opens

/-- A text in which no block comment starts is legible where each word starts a call. -/
theorem Text.legible_of_sole {t : Text} (ht : ¬['/', '*'] <:+: t)
    (hsole : ∀ n, t.Opens n → ∃ c ∈ scan t, c.site.start = n) : t.Legible := by
  refine ⟨fun c hc => ?_, hsole⟩
  have hfound := foundIn_of_mem_scan hc
  obtain ⟨u, v, heq, -⟩ := hfound.standsAt.1
  exact hfound.unblocked fun hblock => ht (hblock.trans ⟨u, v, heq.symm⟩)

theorem ScannedCall.Unblocked.exists_cut {c : ScannedCall} {t : Text} (h : c.Unblocked) (hs : c.site.StandsIn t) :
    ∃ (m : CallMatch) (u v : Text), t = u ++ (m.text ++ v) ∧ u.size = c.site.start ∧
      (CallShape.standard c.action.kind).Unblocked m ∧ ofMatch? c.action.kind u.size m = some c := by
  obtain ⟨m, hm, hcall⟩ := h
  obtain ⟨u, v, rfl, hu⟩ := hs.stands
  obtain ⟨values, ranges, action, -, -, heq⟩ := ofMatch?_eq_some_iff.1 hcall
  have htext : c.site.text = m.text := by rw [heq]
  exact ⟨m, u, v, by rw [htext, List.append_assoc], hu, hm, hu.symm ▸ hcall⟩

/-- Where calls without block comments stand, and the word nowhere else, a scan finds these calls. -/
theorem Scan.spread_of_opens {t : Text} {cs : List ScannedCall} (hcs : ∀ c ∈ cs, c.Unblocked)
    (ha : Anchored t (cs.map (·.site))) (ht : ∀ n, t.Opens n ↔ ∃ c ∈ cs, c.site.start = n) :
    Spread t cs := by
  have hcut : ∀ c ∈ cs, _ := fun c hc => (hcs c hc).exists_cut (ha.stands _ (List.mem_map_of_mem hc))
  refine ⟨fun c hc => ?_, List.pairwise_map.1 ha.ordered, fun {kind lead rest m} hlead hm hend => ?_⟩
  · obtain ⟨m, u, v, rfl, hu, hm, hcall⟩ := hcut c hc
    obtain ⟨lead, behind, heq, hlead, hend, -⟩ := (ht _).2 ⟨c, hc, rfl⟩
    rw [← (Text.append_inj_of_size heq (hu.trans hlead.symm)).1] at hend
    exact ⟨_, u, m.text ++ v, m, rfl, hm.match?_append v, hcall, hend⟩
  · obtain ⟨y, hy, hhalts⟩ := CallShape.exists_haltsWord_of_match? hm
    obtain ⟨c, hc, hstart⟩ := (ht lead.size).1 ⟨lead, y, hy ▸ hlead, rfl, hend, hhalts⟩
    obtain ⟨n, u, v, heq, hu, hn, hcall⟩ := hcut c hc
    obtain ⟨rfl, rfl⟩ := Text.append_inj_of_size (heq.symm.trans hlead) (hu.trans hstart)
    have hkind : kind = c.action.kind := by
      by_contra hne
      have hnone : (CallShape.standard kind).match? (n.text ++ v) = none := hn.match?_of_ne hne v
      exact absurd (hnone.symm.trans hm) (by simp)
    rw [hkind, hn.match?_append v] at hm
    obtain rfl := Option.some.inj hm
    exact ⟨c, hc, Nat.le_of_eq (ScannedCall.site_of_ofMatch? hcall).2.symm, .inl (hkind ▸ hcall)⟩

theorem Text.legible_of_opens {t : Text} {cs : List ScannedCall} (hcs : ∀ c ∈ cs, c.Unblocked)
    (ha : Anchored t (cs.map (·.site))) (ht : ∀ n, t.Opens n ↔ ∃ c ∈ cs, c.site.start = n) :
    scan t = cs ∧ t.Legible := by
  have hscan := (Scan.spread_of_opens hcs ha ht).scan_eq
  refine ⟨hscan, ?_, ?_⟩
  · rw [hscan]
    exact hcs
  · rw [hscan]
    exact fun n => (ht n).1

end RoutineSync
