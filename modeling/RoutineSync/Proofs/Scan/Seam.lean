import RoutineSync.Proofs.Scan.Plain
/-!
Scanning a text in parts: where no call lies across the seam of two texts, the calls of both are
those of the first and then those of the second, moved.
-/
set_option autoImplicit false

namespace RoutineSync

namespace Scan

/-- No call lies across the place where two texts meet: the first one ends with a call, or the
second one starts with one. -/
inductive Seam : Text → Text → Prop where
  | closed {x y : Text} : (∀ c ∈ x.getLast?, c = ';') → Seam x y
  | empty {x : Text} : Seam x []
  | opening {x y : Text} : x.endsWord = true → "auton".toList <+: y → Seam x y

namespace Seam
variable {x y : Text}

theorem endsWord (h : Seam x y) (hy : y ≠ []) : x.endsWord = true := by
  cases h with
  | closed hx =>
    cases hl : x.getLast? with
    | none => simp [Text.endsWord, hl]
    | some c =>
      obtain rfl := hx c hl
      simp only [Text.endsWord, hl]
      decide
  | empty => exact absurd rfl hy
  | opening hx _ => exact hx

theorem fits {s : CallShape} {lead rest : Text} {m : CallMatch} (h : Seam (lead ++ rest) y)
    (hr : rest ≠ []) (hm : s.Found (rest ++ y) m) : m.text <+: rest := by
  generalize hx : lead ++ rest = x at h
  cases h with
  | closed hlast =>
    refine hm.ends_before_semicolon ?_
    cases hl : rest.getLast? with
    | none => exact absurd (List.getLast?_eq_none_iff.1 hl) hr
    | some c =>
      rw [hlast c (by rw [← hx, List.getLast?_append_of_ne_nil lead hr, hl]; rfl)]
  | empty =>
    have := CallShape.prefix_of_match? hm.found
    rwa [List.append_nil] at this
  | opening _ hy => exact hm.ends_before_opening hr hy

end Seam

end Scan

namespace ScannedCall

theorem foundIn_append_iff {x y : Text} (hp : (x ++ y).Plain) (hs : Scan.Seam x y)
    {c : ScannedCall} :
    c.FoundIn (x ++ y) ↔ c.FoundIn x ∨ ∃ d : ScannedCall, d.FoundIn y ∧ d.shift x.size = c := by
  constructor
  · rintro ⟨kind, lead, rest, m, ht, hm, hc, hw⟩
    have behind : ∀ lead', lead = x ++ lead' → y = lead' ++ rest →
        ∃ d : ScannedCall, d.FoundIn y ∧ d.shift x.size = c := by
      rintro lead' rfl rfl
      rw [Text.size_append, ofMatch?_shift] at hc
      obtain ⟨d, hd, rfl⟩ := Option.map_eq_some_iff.1 hc
      exact ⟨d, ⟨kind, lead', rest, m, rfl, hm, hd, Text.endsWord_of_append hw⟩, rfl⟩
    rcases List.append_eq_append_iff.1 ht with ⟨lead', hlead, hy⟩ | ⟨rest', rfl, rfl⟩
    · exact .inr (behind lead' hlead hy)
    · by_cases hr : rest' = []
      · subst hr
        exact .inr (behind [] (by simp) (by simp))
      · have hrest : Text.Plain (rest' ++ y) := by
          rw [List.append_assoc] at hp
          exact hp.right
        obtain ⟨z, rfl⟩ := hs.fits hr ⟨hm, hrest⟩
        exact .inl ⟨kind, lead, _, m, rfl, CallShape.Found.append ⟨hm, hrest⟩ z, hc, hw⟩
  · rintro (⟨kind, lead, rest, m, rfl, hm, hc, hw⟩ | ⟨d, ⟨kind, lead, rest, m, rfl, hm, hd, hw⟩, rfl⟩)
    · obtain ⟨z, rfl⟩ := CallShape.prefix_of_match? hm
      have hfound : (CallShape.standard kind).Found (m.text ++ z) m := ⟨hm, hp.left.right⟩
      have := hfound.append (z ++ y)
      exact ⟨kind, lead, _, m, by simp only [List.append_assoc], this, hc, hw⟩
    · refine ⟨kind, x ++ lead, rest, m, (List.append_assoc _ _ _).symm, hm, ?_, ?_⟩
      · rw [Text.size_append, ofMatch?_shift, hd]
        rfl
      · by_cases hl : lead = []
        · subst hl
          rw [List.append_nil]
          refine hs.endsWord fun h0 => ?_
          have := CallShape.Found.opens ⟨hm, hp.right.right⟩
          rw [(List.append_eq_nil_iff.1 h0).2] at this
          exact absurd this (by decide)
        · rwa [Text.endsWord_append hl]

end ScannedCall

/-- Plain text can be scanned in parts. -/
theorem scan_append {x y : Text} (hp : (x ++ y).Plain) (hs : Scan.Seam x y) :
    scan (x ++ y) = scan x ++ (scan y).map (ScannedCall.shift x.size) := by
  refine ScannedCall.eq_of_mem_iff (pairwise_scan _) ?_ (fun c hc => ?_) fun c => ?_
  · rw [List.pairwise_append, List.pairwise_map]
    refine ⟨pairwise_scan x, (pairwise_scan y).imp fun h => Nat.add_le_add_right h _, ?_⟩
    intro a ha b hb
    obtain ⟨d, -, rfl⟩ := List.mem_map.1 hb
    obtain ⟨h1, h2, h3⟩ := (foundIn_of_mem_scan ha).standsAt
    have := CallSite.StandsIn.stop_le_size ⟨h1, h2, h3⟩
    simp only [ScannedCall.shift]
    omega
  · exact (foundIn_of_mem_scan hc).start_lt_stop
  · rw [mem_scan_iff hp, ScannedCall.foundIn_append_iff hp hs, List.mem_append, List.mem_map,
      mem_scan_iff hp.left]
    simp only [mem_scan_iff hp.right]

end RoutineSync
