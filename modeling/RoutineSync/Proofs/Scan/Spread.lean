import RoutineSync.Proofs.Scan.Complete
/-!
When the scan of a text finds given calls: each of them stands in the text, and everything else in it
that looks like a call is inside one of them.
-/
set_option autoImplicit false

namespace RoutineSync

namespace Scan
open ScannedCall (eq_or_apart)

/-- Calls one behind the other, with everything that looks like a call inside them. -/
structure Spread (t : Text) (cs : List ScannedCall) : Prop where
  found : ∀ c ∈ cs, c.FoundIn t
  ordered : cs.Pairwise fun a b => a.site.stop ≤ b.site.start
  covers : ∀ {kind : ActionKind} {lead rest : Text} {m : CallMatch}, t = lead ++ rest →
    (CallShape.standard kind).match? rest = some m → lead.endsWord = true →
    ∃ c ∈ cs, lead.size + m.text.size ≤ c.site.stop ∧
      (ScannedCall.ofMatch? kind lead.size m = some c ∨ c.site.start < lead.size)

namespace Spread
variable {t : Text} {cs : List ScannedCall}

theorem start_lt_stop (h : Spread t cs) {c : ScannedCall} (hc : c ∈ cs) : c.site.start < c.site.stop :=
  (h.found c hc).start_lt_stop

/-- What looks like a call is one of the calls, or ends before one of them, or starts behind its
start. -/
theorem eq_or_apart_of_match (h : Spread t cs) {c : ScannedCall} (hc : c ∈ cs) {kind : ActionKind}
    {lead rest : Text} {m : CallMatch} (ht : t = lead ++ rest)
    (hm : (CallShape.standard kind).match? rest = some m) (hw : lead.endsWord = true) :
    ScannedCall.ofMatch? kind lead.size m = some c ∨ lead.size + m.text.size ≤ c.site.start ∨
      c.site.start < lead.size := by
  obtain ⟨d, hd, hstop, hstart⟩ := h.covers ht hm hw
  have hlt := h.start_lt_stop hc
  rcases eq_or_apart h.ordered hd hc with rfl | hdc | hcd
  · rcases hstart with hcall | hstart
    · exact .inl hcall
    · exact .inr (.inr hstart)
  · exact .inr (.inl (by omega))
  · refine .inr (.inr ?_)
    rcases hstart with hcall | hstart
    · have := (ScannedCall.site_of_ofMatch? hcall).1
      omega
    · omega

/-- No call starts inside something else that looks like one. -/
theorem mem_occurrences (h : Spread t cs) {c : ScannedCall} (hc : c ∈ cs) {kind : ActionKind}
    {lead rest : Text} {m : CallMatch} (ht : t = lead ++ rest)
    (hm : (CallShape.standard kind).match? rest = some m) (hw : lead.endsWord = true)
    (hstart : c.site.start = lead.size) : (lead.size, m) ∈ (CallShape.standard kind).occurrences t := by
  subst ht
  obtain h' | ⟨p, hp, hbefore, hbehind⟩ := CallShape.mem_occurrences_or_crosses hm hw
  · exact h'
  · obtain ⟨lead', rest', ht, hplace, hm', hw'⟩ := CallShape.exists_of_mem_occurrences hp
    rcases h.eq_or_apart_of_match hc ht hm' hw' with hcall | hstop | hlt
    · have := (ScannedCall.site_of_ofMatch? hcall).1
      omega
    · omega
    · omega

theorem scan_eq (h : Spread t cs) : scan t = cs := by
  have hmem : ∀ c ∈ cs, c ∈ scan t := by
    intro c hc
    obtain ⟨kind, lead, rest, m, ht, hm, hcall, hw⟩ := h.found c hc
    have hstart := (ScannedCall.site_of_ofMatch? hcall).1
    obtain h' | ⟨d, hd, hds, hsd⟩ := mem_scan_or_inside (h.mem_occurrences hc ht hm hw hstart) hcall
    · exact h'
    · dsimp only at hds hsd
      obtain ⟨kind', lead', rest', m', ht', hm', hdcall, hw'⟩ := foundIn_of_mem_scan hd
      obtain ⟨hdstart, hdstop⟩ := ScannedCall.site_of_ofMatch? hdcall
      rcases h.eq_or_apart_of_match hc ht' hm' hw' with hdc | hstop | hlt
      · rwa [← Option.some.inj (hdcall.symm.trans hdc)]
      · omega
      · omega
  refine ScannedCall.eq_of_mem_iff (pairwise_scan t) h.ordered
    (fun c hc => (foundIn_of_mem_scan hc).start_lt_stop) fun c => ⟨fun hc => ?_, hmem c⟩
  have hlt := (foundIn_of_mem_scan hc).start_lt_stop
  obtain ⟨kind, lead, rest, m, ht, hm, hcall, hw⟩ := foundIn_of_mem_scan hc
  obtain ⟨d, hd, hstop, hstart⟩ := h.covers ht hm hw
  rcases hstart with hd' | hstart
  · rw [← Option.some.inj (hd'.symm.trans hcall)]
    exact hd
  · -- the call would lie inside another one that is found too
    obtain ⟨hplace, hend⟩ := ScannedCall.site_of_ofMatch? hcall
    rcases eq_or_apart (pairwise_scan t) hc (hmem d hd) with rfl | hcd | hdc
    · exact hd
    · omega
    · omega

end Spread

end Scan

end RoutineSync
