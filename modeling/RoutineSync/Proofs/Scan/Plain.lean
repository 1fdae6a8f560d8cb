import RoutineSync.Proofs.Call.Steady
import RoutineSync.Proofs.Scan.Spread
/-!
Scanning plain text. Every call at the start of a word is found, and none covers another, so that a
text can be scanned in parts wherever no call lies across the seam.
-/
set_option autoImplicit false

namespace RoutineSync

namespace CallShape

namespace Found
variable {s : CallShape} {x r : Text} {m : CallMatch}

/-- A call ends before the next one starts. -/
theorem ends_before_opening (h : s.Found (x ++ r) m) (hx : x ≠ []) (hr : "auton".toList <+: r) :
    m.text <+: x := by
  rcases List.prefix_or_prefix_of_prefix (prefix_of_match? h.found) (List.prefix_append x r) with
    hm | ⟨z, hz⟩
  · exact hm
  · cases z with
    | nil =>
      rw [List.append_nil] at hz
      exact ⟨[], by rw [List.append_nil, hz]⟩
    | cons c z =>
      have hzr : c :: z <+: r := by
        obtain ⟨q, hq⟩ := prefix_of_match? h.found
        rw [← hz, List.append_assoc] at hq
        exact ⟨q, List.append_cancel_left hq⟩
      exact absurd hr (h.not_opens_inside hx (List.cons_ne_nil c z) hz.symm hzr)

/-- A call ends at the first semicolon. -/
theorem ends_before_semicolon (h : s.Found (x ++ r) m) (hx : x.getLast? = some ';') :
    m.text <+: x := by
  rcases List.prefix_or_prefix_of_prefix (prefix_of_match? h.found) (List.prefix_append x r) with
    hm | ⟨z, hz⟩
  · exact hm
  · rw [h.eq_nil_of_semicolon hx hz.symm, List.append_nil] at hz
    exact ⟨[], by rw [List.append_nil, hz]⟩

end Found

theorem mem_occurrences {s : CallShape} {lead rest : Text} {m : CallMatch}
    (hp : (lead ++ rest).Plain) (hm : s.match? rest = some m) (hw : lead.endsWord = true) :
    (lead.size, m) ∈ s.occurrences (lead ++ rest) := by
  obtain h | ⟨p, hmem, hbefore, hbehind⟩ := mem_occurrences_or_crosses hm hw
  · exact h
  obtain ⟨lead', rest', ht, hplace, hm', -⟩ := exists_of_mem_occurrences hmem
  obtain ⟨x, rfl, rfl⟩ := Text.exists_middle ht.symm (by omega)
  have hx : x ≠ [] := by
    rintro rfl
    rw [List.append_nil] at hbefore
    omega
  have hplain : (x ++ rest).Plain := (List.append_assoc lead' x rest ▸ hp : _).right
  obtain ⟨z, hz⟩ := Found.ends_before_opening ⟨hm', hplain⟩ hx (Found.opens ⟨hm, hp.right⟩)
  rw [Text.size_append, ← hz, Text.size_append] at hbehind
  omega

end CallShape

namespace Scan

theorem pairwise_candidates {t : Text} (hp : t.Plain) :
    (candidates t).Pairwise fun a b => a.place ≠ b.place := by
  have hplaces : ∀ s : CallShape, (s.occurrences t).Pairwise fun p q => p.1 ≠ q.1 := by
    intro s
    refine (CallShape.apart_occurrences s t).imp_of_mem fun {p q} hp _ hpq => ?_
    obtain ⟨lead, rest, -, -, hm, -⟩ := CallShape.exists_of_mem_occurrences hp
    have := CallShape.size_pos_of_match? hm
    omega
  simp only [candidates, CallShape.library, List.flatMap_map, List.pairwise_flatMap,
    List.pairwise_map]
  refine ⟨fun kind _ => hplaces _, ?_⟩
  have hkinds : ActionKind.all.Nodup := by decide
  refine hkinds.imp fun {k k'} hne => ?_
  simp only [List.mem_map]
  rintro _ ⟨p, hmem, rfl⟩ _ ⟨p', hmem', rfl⟩ hplace
  obtain ⟨lead, rest, ht, hlead, hm, -⟩ := CallShape.exists_of_mem_occurrences hmem
  obtain ⟨lead', rest', ht', hlead', hm', -⟩ := CallShape.exists_of_mem_occurrences hmem'
  have hsize : lead.size = lead'.size := by
    rw [← hlead, ← hlead']
    exact hplace
  obtain ⟨rfl, rfl⟩ := Text.append_inj_of_size (ht.symm.trans ht') hsize
  have hrest : rest.Plain := (ht ▸ hp : (lead ++ rest).Plain).right
  exact hne (CallShape.Found.kind_eq ⟨hm, hrest⟩ ⟨hm', hrest⟩)

theorem stop_le_place {t : Text} (hp : t.Plain) {a b : Candidate} (ha : a ∈ candidates t)
    (hb : b ∈ candidates t) (h : a.place < b.place) : a.stop ≤ b.place := by
  obtain ⟨lead, rest, rfl, hlead, hm, -⟩ := exists_of_mem_candidates ha
  obtain ⟨lead', rest', ht', hlead', hm', -⟩ := exists_of_mem_candidates hb
  rw [hlead, hlead'] at h
  obtain ⟨x, rfl, rfl⟩ := Text.exists_middle ht' (Nat.le_of_lt h)
  have hx : x ≠ [] := by
    rintro rfl
    simp at h
  have hopens := CallShape.Found.opens ⟨hm', hp.right.right⟩
  obtain ⟨z, rfl⟩ := CallShape.Found.ends_before_opening ⟨hm, hp.right⟩ hx hopens
  rw [Candidate.stop, hlead, hlead']
  simp only [Text.size_append]
  omega

theorem pairwise_sorted {t : Text} (hp : t.Plain) :
    ((candidates t).mergeSort Candidate.le).Pairwise fun a b => a.stop ≤ b.place := by
  have hne : ((candidates t).mergeSort Candidate.le).Pairwise fun a b => a.place ≠ b.place :=
    ((List.mergeSort_perm _ _).pairwise_iff fun h => Ne.symm h).2 (pairwise_candidates hp)
  refine ((sorted_candidates t).and hne).imp_of_mem fun {a b} ha hb h => ?_
  rw [List.mem_mergeSort] at ha hb
  exact stop_le_place hp ha hb (Nat.lt_of_le_of_ne h.1 h.2)

/-- Where no candidate covers another, all that are actions are kept. -/
theorem select_eq {free : Nat} {cs : List Candidate}
    (h : cs.Pairwise fun a b => a.stop ≤ b.place) (hf : ∀ a ∈ cs, free ≤ a.place) :
    select free cs = cs.filterMap fun a => ScannedCall.ofMatch? a.kind a.place a.found := by
  fun_induction select free cs with
  | case1 => rfl
  | case2 free a cs hlt _ =>
    have := hf a List.mem_cons_self
    omega
  | case3 free a cs _ call hm ih =>
    rw [List.pairwise_cons] at h
    simp only [List.filterMap_cons, hm]
    rw [ih h.2 h.1]
  | case4 free a cs _ hm ih =>
    rw [List.pairwise_cons] at h
    simp only [List.filterMap_cons, hm]
    exact ih h.2 fun b hb => hf b (List.mem_cons_of_mem _ hb)

end Scan

/-- In plain text every call is found. -/
theorem mem_scan_iff {t : Text} (hp : t.Plain) {c : ScannedCall} : c ∈ scan t ↔ c.FoundIn t := by
  refine ⟨foundIn_of_mem_scan, ?_⟩
  rintro ⟨kind, lead, rest, m, rfl, hm, hc, hw⟩
  rw [scan, Scan.select_eq (Scan.pairwise_sorted hp) fun a _ => Nat.zero_le _, List.mem_filterMap]
  exact ⟨_, List.mem_mergeSort.2 (Scan.mem_candidates (CallShape.mem_occurrences hp hm hw)), hc⟩

end RoutineSync
