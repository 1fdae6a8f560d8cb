import RoutineSync.Proofs.Sync.Settled
import RoutineSync.Proofs.Sync.Sources
/-!
A rewriting is a proper patch of its text, also where some steps stand in no text: its edits fit
together, each installed step is told one site, and afterwards the calls stand where the rewriting
says, one behind the other.
-/
set_option autoImplicit false

namespace RoutineSync

namespace Rewrite

/-- A rewriting of a text that installs steps of some identities between the calls `pre` and the
calls `post`. -/
structure WellFormed (r : Rewrite) (t : Text) (pre : List CallSite) (ids : List ActionId)
    (post : List CallSite) : Prop where
  fit : TextEdit.Fit 0 r.edits t
  ids_perm : (r.sites.map (·.1)).Perm ids
  stand : ∃ placed : List CallSite, ids.map r.siteOf? = placed.map some ∧
    let sites := pre.map r.remap ++ placed ++ post.map r.remap
    (∀ s ∈ sites, s.LiesIn (TextEdit.applyAll r.edits t)) ∧
      sites.Pairwise fun s q => s.stop ≤ q.start

/-- What is asked of a text whose calls stand in order is well-formed. -/
theorem wellFormed_of_synthesize {steps : List Step} {e : RoutineEdit} {t : Text} {source : Source}
    {r : Rewrite} (hsource : source = .byCount t ∨ source = .bySearch t)
    (hsites : Marked t (sitesOf steps)) (hids : (e.steps.map (·.id)).Nodup)
    (h : synthesize steps e source = .ok r) (hs : (TextEdit.applyAll r.edits t).size ≤ maxPlace) :
    r.WellFormed t (sitesOf (steps.take e.index)) (e.steps.map (·.id))
      (sitesOf (steps.drop (e.index + e.count))) := by
  obtain ⟨-, s, -⟩ := exists_synthesis (synthesize_byCount hsource hsites.toAligned h)
  rw [← sitesOf_parts steps e.index e.count] at hsites
  have hstand := s.lies_settled hids hsites hs
  have hsite : (e.steps.map (·.id)).map r.siteOf?
      = (e.steps.map fun x => Synthesis.settled r x.id).map some := by
    rw [List.map_map, List.map_map]
    exact List.map_congr_left fun x hx => (s.settled_liesIn hids hsites hs hx).1
  exact ⟨(s.carries hsites).fit, s.keys_perm, _, hsite, hstand⟩

deriving instance DecidableEq for Placed, Part

/-- A call that waits, with two digits. -/
def waitAt (place : Nat) (digits : String) : CallSite :=
  ⟨place, place + 16, ("auton::wait(" ++ digits ++ ");").toList, [("milliseconds", ⟨12, 14⟩)]⟩

def mixedText : Text := "auton::wait(10);\n  auton::wait(20); // keep\nauton::wait(30);".toList

/-- Three steps that stand in the text and one that does not. -/
def mixedSteps : List Step :=
  [⟨⟨1⟩, .wait 10, some (waitAt 0 "10")⟩, ⟨⟨2⟩, .stopIntake, none⟩,
    ⟨⟨3⟩, .wait 20, some (waitAt 19 "20")⟩, ⟨⟨4⟩, .wait 30, some (waitAt 44 "30")⟩]

/-- Of the first three steps one goes on with another value, and a new one comes behind it. -/
def mixedEdit : RoutineEdit := ⟨0, 3, [⟨⟨3⟩, .wait 25, none⟩, ⟨⟨5⟩, .wait 5, none⟩]⟩

def mixedRewrite : Rewrite where
  edits := [⟨⟨0, 17⟩, []⟩, ⟨⟨31, 33⟩, "25".toList⟩, ⟨⟨44, 44⟩, "auton::wait(5);\n".toList⟩]
  sites := [(⟨5⟩, ⟨27, 42, "auton::wait(5);".toList, [("milliseconds", ⟨12, 13⟩)]⟩),
    (⟨3⟩, waitAt 2 "25")]

theorem patchTo_wait : (waitAt 19 "20").patchTo (.wait 20) (.wait 25)
    = .ok ([⟨⟨31, 33⟩, "25".toList⟩], waitAt 19 "25") := by
  have hfor : (waitAt 19 "20").patchesFor (Action.wait 20).params (Action.wait 25).params
      ((Action.wait 20).params.names ++ (Action.wait 25).params.names) []
      = some [⟨⟨12, 14⟩, "25".toList⟩] := by decide +kernel
  have hp : (waitAt 19 "20").patches? (.wait 20) (.wait 25) = some [⟨⟨12, 14⟩, "25".toList⟩] := by
    rw [CallSite.patches?, hfor, Option.map_some, List.mergeSort_singleton]
  have hm : ((CallShape.standard (Action.wait 25).kind).match?
      ((waitAt 19 "20").patched [⟨⟨12, 14⟩, "25".toList⟩])).bind (·.extract?)
      = some ([("milliseconds", .int 25)], [("milliseconds", ⟨12, 14⟩)]) := by decide +kernel
  obtain ⟨found, hm, hex⟩ := Option.bind_eq_some_iff.1 hm
  have hkind : (Action.wait 20).kind = (Action.wait 25).kind := rfl
  rw [CallSite.patchTo_of_match (by decide +kernel) hkind hp hm hex]
  decide +kernel

theorem synthesize_mixed :
    synthesize mixedSteps mixedEdit (.byCount mixedText) = .ok mixedRewrite := by
  have hpairs : pairs 0 mixedEdit.steps ((mixedSteps.drop mixedEdit.index).take mixedEdit.count)
      = [some 2, none] := by decide +kernel
  -- the parts come in order already
  have harranged : ∀ parts : List Part, parts = [⟨⟨⟨0, 17⟩, []⟩, []⟩, ⟨⟨⟨31, 33⟩, "25".toList⟩, []⟩,
      ⟨⟨⟨44, 44⟩, "auton::wait(5);\n".toList⟩,
        [⟨⟨5⟩, 0, ⟨"auton::wait(5);".toList, [("milliseconds", ⟨12, 13⟩)]⟩⟩]⟩] →
      arranged parts = parts := by
    rintro _ rfl
    rw [arranged, List.mergeSort_of_pairwise (by decide +kernel)]
    decide +kernel
  rw [synthesize_eq, Result.check_eq_ok_iff]
  refine ⟨by decide +kernel, ?_⟩
  dsimp only
  rw [hpairs, Result.bind_eq_ok_iff]
  refine ⟨[([⟨⟨31, 33⟩, "25".toList⟩], ⟨3⟩, waitAt 19 "25")], ?_, ?_⟩
  · have hpatching : patching ((mixedSteps.drop mixedEdit.index).take mixedEdit.count)
        (⟨⟨3⟩, .wait 25, none⟩, some 2)
        = .ok (some ([⟨⟨31, 33⟩, "25".toList⟩], ⟨3⟩, waitAt 19 "25")) :=
      (@patching_of_sited _ _ ⟨⟨3⟩, .wait 20, some (waitAt 19 "20")⟩ _ _ rfl rfl).trans
        (congrArg (Except.map _) patchTo_wait)
    change patching _ (⟨⟨3⟩, .wait 25, none⟩, some 2) >>= _ = _
    rw [hpatching]
    rfl
  · rw [Result.bind_eq_ok_iff]
    refine ⟨[⟨⟨⟨44, 44⟩, "auton::wait(5);\n".toList⟩,
      [⟨⟨5⟩, 0, ⟨"auton::wait(5);".toList, [("milliseconds", ⟨12, 13⟩)]⟩⟩]⟩], by decide +kernel, ?_⟩
    rw [Result.pure_eq_ok_iff, harranged _ (by decide +kernel), mixedRewrite, Rewrite.mk.injEq]
    exact ⟨by decide +kernel, by decide +kernel⟩

theorem standsIn_waitAt {t : Text} {place : Nat} {digits : String} {n : Int64}
    (h : t.slice? place (place + 16) = some (waitAt place digits).text)
    (hn : (Action.wait n).generate = .ok ⟨(waitAt place digits).text, [("milliseconds", ⟨12, 14⟩)]⟩) :
    (waitAt place digits).StandsIn t where
  stands := (Text.slice?_eq_some_iff.1 h).1
  stop_eq := (Text.slice?_eq_some_iff.1 h).2.symm
  proper := Action.proper_of_generate hn

theorem anchored_mixed : Anchored mixedText (sitesOf mixedSteps) := by
  have hsites : sitesOf mixedSteps = [waitAt 0 "10", waitAt 19 "20", waitAt 44 "30"] := rfl
  rw [hsites]
  refine ⟨?_, by decide +kernel⟩
  simp only [List.forall_mem_cons]
  exact ⟨@standsIn_waitAt _ _ _ 10 (by decide +kernel) (by decide +kernel),
    @standsIn_waitAt _ _ _ 20 (by decide +kernel) (by decide +kernel),
    @standsIn_waitAt _ _ _ 30 (by decide +kernel) (by decide +kernel), by simp⟩

/-- Deleted, patched and inserted in one go, next to a step that stands nowhere. -/
theorem wellFormed_of_synthesize_mixed :
    synthesize mixedSteps mixedEdit (.byCount mixedText) = .ok mixedRewrite ∧
      mixedRewrite.WellFormed mixedText [] [⟨3⟩, ⟨5⟩] [waitAt 44 "30"] :=
  ⟨synthesize_mixed, wellFormed_of_synthesize (.inl rfl) anchored_mixed.marked (by decide)
    synthesize_mixed (by decide +kernel)⟩

end Rewrite

end RoutineSync
