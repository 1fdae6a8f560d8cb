import RoutineSync.Proofs.Action.Parameters
import RoutineSync.Proofs.Call.Extraction
import RoutineSync.Proofs.Call.Literals
/-!
What a scan reports of a call: where it stands, which parameters its action has, and where in the
call their literals are.
-/
set_option autoImplicit false

namespace RoutineSync

namespace CallShape

theorem laid_of_match? {s : CallShape} {t : Text} {m : CallMatch} (h : s.match? t = some m) :
    m.Laid s.params := by
  obtain ⟨n, rfl, hn⟩ := derives_of_match? h
  exact (laid_of_grammar hn).after _

section
variable {kind : ActionKind} {t : Text} {m : CallMatch} {values : NameMap Value}
  {ranges : NameMap ByteRange} {a : Action}

theorem args_nodup (hm : (standard kind).match? t = some m) : (m.args.map (·.param.name)).Nodup :=
  (laid_of_match? hm).names_nodup (names_nodup kind)

theorem params_eq_values (hm : (standard kind).match? t = some m)
    (he : m.extract? = some (values, ranges)) (ha : Action.ofParams? kind values = some a) :
    a.params = values := by
  refine Action.params_eq ha (CallMatch.sorted_extract? he).1 fun e hmem => ?_
  rw [← (CallMatch.sorted_extract? he).1.get?_eq_some_iff, CallMatch.get?_values he (args_nodup hm)]
    at hmem
  obtain ⟨x, hx, hname, hv⟩ := hmem
  have hparam := (laid_of_match? hm).params_isPrefix.subset (List.mem_map_of_mem hx)
  exact ⟨x.param, mem_standard.1 hparam, hname, ValueType.type_of_read? hv⟩

end

end CallShape

/-- What a step says of a call in a text that starts at place `bias` of a larger one: where the call
stands, and which literal in it gives which parameter. -/
structure CallSite.Reports (t : Text) (bias : Nat) (a : Action) (s : CallSite) : Prop where
  start_lt_stop : s.start < s.stop
  within : bias ≤ s.start ∧ s.stop ≤ bias + t.size
  text_eq : t.slice? (s.start - bias) (s.stop - bias) = some s.text
  opens : "auton".toList <+: s.text
  word : ∃ lead rest : Text, t = lead ++ rest ∧ s.start = bias + lead.size ∧ lead.endsWord = true
  closes : s.text.getLast? = some ';'
  names : s.params.names = a.params.names
  apart : s.params.Pairwise fun e f => e.2.stop ≤ f.2.start ∨ f.2.stop ≤ e.2.start
  inside : ∀ e ∈ s.params, e.2.start ≤ e.2.stop ∧ e.2.stop ≤ s.text.size
  reads : ∀ e ∈ a.params, ∃ p ∈ (CallShape.standard a.kind).params, ∃ range literal, p.name = e.1 ∧
    s.params.get? e.1 = some range ∧ s.text.slice? range.start range.stop = some literal ∧
    p.type.read? literal = some e.2

namespace ScannedCall
open CallShape

/-- What is found of a call is what stands in the text. -/
theorem FoundIn.reports {c : ScannedCall} {t : Text} (h : c.FoundIn t) (bias : Nat) :
    CallSite.Reports t bias c.action (c.shift bias).site := by
  have hlt := h.start_lt_stop
  obtain ⟨hstands, -, hproper⟩ := h.standsAt
  have hsize := hstands.le_size
  obtain ⟨kind, lead, rest, m, ht, hm, hc, hw⟩ := h
  obtain ⟨values, ranges, action, he, ha, rfl⟩ := ofMatch?_eq_some_iff.1 hc
  have hnodup := args_nodup hm
  have hparams := params_eq_values hm he ha
  have hsorted := CallMatch.sorted_extract? he
  have hstart : ∀ n, n + bias - bias = n := fun n => Nat.add_sub_cancel n bias
  constructor
  · exact Nat.add_lt_add_right hlt bias
  · dsimp only [shift] at hsize ⊢
    omega
  · simp only [shift, hstart]
    exact Text.slice?_eq_some_iff.2 ⟨hstands, rfl⟩
  · exact hproper.opens
  · exact ⟨lead, rest, ht, Nat.add_comm _ _, hw⟩
  · exact hproper.closes
  · rw [hparams]
    exact CallMatch.names_ranges he hnodup
  · exact hproper.apart
  · exact hproper.ranged.inside_text
  · intro e hmem
    rw [hparams, ← hsorted.1.get?_eq_some_iff, CallMatch.get?_values he hnodup] at hmem
    obtain ⟨a, ha', hname, hv⟩ := hmem
    rw [Action.kind_of_ofParams? ha]
    exact ⟨a.param, (laid_of_match? hm).params_isPrefix.subset (List.mem_map_of_mem ha'),
      m.argumentRange a, a.literal, hname, (CallMatch.get?_ranges he hnodup).2 ⟨a, ha', hname, rfl⟩,
      (laid_of_match? hm).slice?_argument ha', hv⟩

end ScannedCall

/-- The steps of a scanned text have their calls one behind the other, and tell of each what stands in
the text. -/
theorem scanSteps_reports (t : Text) (bias : Nat) (supply : IdSupply) :
    let steps := ((scanSteps t bias).run supply).1
    ∃ sites : List CallSite, steps.map (·.site) = sites.map some ∧
      (sites.Pairwise fun a b => a.start < b.start ∧ a.stop ≤ b.start) ∧
      ∀ s ∈ steps, ∀ site, s.site = some site → site.Reports t bias s.action := by
  intro steps
  have hsteps : steps = ((scan t).zipIdx supply.next).map fun p => (p.1.shift bias).stepWith p.2 :=
    congrArg Prod.fst (run_scanSteps t bias supply)
  refine ⟨(scan t).map fun c => (c.shift bias).site, ?_, ?_, ?_⟩
  · calc steps.map (·.site)
        = ((scan t).zipIdx supply.next).map
            ((fun c : ScannedCall => some (c.shift bias).site) ∘ Prod.fst) := by
          rw [hsteps, List.map_map]
          rfl
      _ = ((scan t).map fun c => (c.shift bias).site).map some := by
          rw [← List.map_map, List.zipIdx_map_fst, List.map_map]
          rfl
  · rw [List.pairwise_map]
    refine (pairwise_scan t).imp_of_mem fun {a b} ha _ hab => ?_
    have hlt := (foundIn_of_mem_scan ha).start_lt_stop
    dsimp only [ScannedCall.shift]
    omega
  · intro s hs site hsite
    rw [hsteps] at hs
    obtain ⟨⟨c, id⟩, hc, rfl⟩ := List.mem_map.1 hs
    obtain rfl := Option.some.inj hsite
    exact (foundIn_of_mem_scan (List.fst_mem_of_mem_zipIdx hc)).reports bias

end RoutineSync
