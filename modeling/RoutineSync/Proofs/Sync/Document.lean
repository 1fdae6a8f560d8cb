import RoutineSync.Proofs.Scan.Spread
import RoutineSync.Proofs.Sync.Marks
import RoutineSync.Proofs.Sync.Settled
/-!
A document written for a routine: one call a line. It is scanned back to the calls that were written,
unless a text in one of them opens a block comment that a text in a later one ends.
-/
set_option autoImplicit false

namespace RoutineSync

open Text (LineEnd infix_append_cons)

/-- No text in the first action opens a block comment that a text in the second one ends. -/
def Action.Apart (a b : Action) : Prop :=
  ∀ cs ∈ a.texts, ∀ ds ∈ b.texts, ['/', '*'] <:+: cs → ¬['*', '/'] <:+: ds

def document (as : List Action) : Text := as.flatMap fun a => a.found.text ++ ['\n']

@[simp] theorem document_cons (a : Action) (as : List Action) :
    document (a :: as) = a.found.text ++ '\n' :: document as := by
  simp [document]

theorem exists_of_infix_document {as : List Action} {l : Text} (hl : l.IsMark)
    (h : l <:+: document as) : ∃ a ∈ as, l <:+: a.found.text := by
  induction as with
  | nil => exact (hl.not_infix (by simp [document]) h).elim
  | cons a as ih =>
    rw [document_cons] at h
    rcases infix_append_cons (by simp [hl.mem_iff]) h with h | h
    · exact ⟨a, List.mem_cons_self, h⟩
    · obtain ⟨b, hb, h⟩ := ih h
      exact ⟨b, List.mem_cons_of_mem _ hb, h⟩

theorem lineEnd_document {a : Action} {as : List Action} (ha : a.Writable)
    (has : ∀ b ∈ as, b.Writable) (h : ∀ b ∈ as, a.Apart b) : LineEnd a.found.text (document as) where
  unbroken := a.unbroken_found ha
  opens := by
    cases as with
    | nil => simp [document]
    | cons b as =>
      intro c hc
      rw [document_cons, Action.text_found] at hc
      exact (Option.some.inj hc).symm
  closed hopen hclose := by
    obtain ⟨cs, hcs, hopen⟩ := a.exists_text_of_infix_found ha (.inl rfl) hopen
    obtain ⟨b, hb, hclose⟩ := exists_of_infix_document (.inr rfl) hclose
    obtain ⟨ds, hds, hclose⟩ := b.exists_text_of_infix_found (has b hb) (.inr rfl) hclose
    exact h b hb cs hcs ds hds hopen hclose

def layOut : Nat → List Step → List (Step × CallSite)
  | _, [] => []
  | place, s :: ss =>
    let call := s.action.written
    let stop := place + call.text.size
    (s, ⟨place, stop, call.text, call.params⟩) :: layOut (stop + 1) ss

theorem map_layOut (place : Nat) (ss : List Step) : (layOut place ss).map (·.1) = ss := by
  induction ss generalizing place with
  | nil => rfl
  | cons s ss ih => simp [layOut, ih]

theorem site_of_mem_layOut {place : Nat} {ss : List Step} {p : Step × CallSite}
    (h : p ∈ layOut place ss) :
    p.2 = ⟨p.2.start, p.2.start + p.1.action.written.text.size, p.1.action.written.text,
      p.1.action.written.params⟩ := by
  induction ss generalizing place with
  | nil => exact absurd h List.not_mem_nil
  | cons s ss ih =>
    rcases List.mem_cons.1 h with rfl | h
    · rfl
    · exact ih h

def scannedAt (p : Step × CallSite) : ScannedCall := ⟨p.1.action.filled, p.2⟩

theorem layOut_shift (bias place : Nat) (ss : List Step) :
    (layOut (bias + place) ss).map scannedAt
      = ((layOut place ss).map scannedAt).map (ScannedCall.shift bias) := by
  induction ss generalizing place with
  | nil => rfl
  | cons s ss ih =>
    have := ih (place + s.action.written.text.size + 1)
    rw [← Nat.add_assoc, ← Nat.add_assoc] at this
    simp only [layOut, List.map_cons, this, List.cons.injEq, and_true]
    simp [scannedAt, ScannedCall.shift, Nat.add_comm bias, Nat.add_right_comm]

namespace Text

theorem size_line (x y : Text) : size (x ++ '\n' :: y) = x.size + 1 + y.size := by
  have hnewline : '\n'.utf8Size = 1 := by decide
  rw [size_append, size_cons, hnewline, Nat.add_assoc]

theorem endsWord_line (x y : Text) : endsWord (x ++ '\n' :: y) = y.endsWord := by
  rw [endsWord_append (List.cons_ne_nil _ _)]
  cases y with
  | nil => decide
  | cons c y => exact endsWord_append (x := ['\n']) (List.cons_ne_nil c y)

end Text

namespace Scan.Spread

open Text (size_line endsWord_line)

theorem covers_behind {x y r rest : Text} {cs : List ScannedCall} (h : Spread r cs) (hr : r = y ++ rest)
    {kind : ActionKind} {m : CallMatch} (hm : (CallShape.standard kind).match? rest = some m)
    (hw : (x ++ '\n' :: y).endsWord = true) :
    ∃ d ∈ cs.map (ScannedCall.shift (x.size + 1)),
      (x ++ '\n' :: y).size + m.text.size ≤ d.site.stop ∧
        (ScannedCall.ofMatch? kind (x ++ '\n' :: y).size m = some d ∨
          d.site.start < (x ++ '\n' :: y).size) := by
  rw [endsWord_line] at hw
  obtain ⟨d, hd, hstop, hd'⟩ := h.covers hr hm hw
  refine ⟨_, List.mem_map_of_mem hd, ?_⟩
  rw [size_line, ScannedCall.ofMatch?_shift]
  refine ⟨?_, hd'.imp (fun hcall => by rw [hcall]; rfl) fun hlt => ?_⟩ <;>
    simp only [ScannedCall.shift] <;> omega

theorem line {x r : Text} {c : ScannedCall} {cs : List ScannedCall} (h : Spread r cs)
    (hl : LineEnd x r) (hc : c.FoundIn (x ++ '\n' :: r)) (hstart : c.site.start = 0)
    (hstop : c.site.stop = x.size)
    (honly : ∀ kind m, (CallShape.standard kind).match? (x ++ '\n' :: r) = some m →
      ScannedCall.ofMatch? kind 0 m = some c) :
    Spread (x ++ '\n' :: r) (c :: cs.map (ScannedCall.shift (x.size + 1))) where
  found := by
    refine List.forall_mem_cons.2 ⟨hc, List.forall_mem_map.2 fun d hd => ?_⟩
    obtain ⟨kind, lead, rest, m, rfl, hm, hcall, hw⟩ := h.found d hd
    refine ⟨kind, x ++ '\n' :: lead, rest, m, by simp, hm, ?_, ?_⟩
    · rw [size_line, ScannedCall.ofMatch?_shift, hcall]
      rfl
    · rwa [endsWord_line]
  ordered := by
    rw [List.pairwise_cons, List.forall_mem_map, List.pairwise_map]
    refine ⟨fun d _ => ?_, h.ordered.imp fun hd => Nat.add_le_add_right hd _⟩
    simp only [ScannedCall.shift, hstop]
    omega
  covers {kind lead rest m} ht hm hw := by
    have hopens := CallShape.opens_of_match? hm
    rcases List.append_eq_append_iff.1 ht with ⟨y, rfl, hy⟩ | ⟨y, rfl, rfl⟩
    · cases y with
      | nil =>
        rw [← show '\n' :: r = rest from hy] at hopens
        exact absurd (List.cons_prefix_cons.1 hopens).1 (by decide)
      | cons d y =>
        obtain ⟨rfl, hr⟩ := List.cons.inj hy
        obtain ⟨d, hd, hd'⟩ := h.covers_behind hr hm hw
        exact ⟨d, List.mem_cons_of_mem _ hd, hd'⟩
    · obtain ⟨z, rfl⟩ := CallShape.match?_on_line hl.right hm
      refine ⟨c, List.mem_cons_self, ?_, ?_⟩
      · rw [hstop]
        simp only [Text.size_append]
        omega
      · by_cases hlead : lead = []
        · subst hlead
          exact .inl (honly kind m hm)
        · rw [hstart]
          exact .inr (Text.size_pos_of_ne_nil hlead)

end Scan.Spread

/-- A document is scanned back to the calls that were written. -/
theorem spread_document {ss : List Step} (hw : ∀ s ∈ ss, s.action.Writable)
    (ha : ss.Pairwise fun s t => s.action.Apart t.action) :
    Scan.Spread (document (ss.map (·.action))) ((layOut 0 ss).map scannedAt) := by
  induction ss with
  | nil =>
    refine ⟨by simp [layOut], .nil, fun {kind lead rest m} ht hm _ => ?_⟩
    obtain ⟨-, rfl⟩ := List.append_eq_nil_iff.1 ht.symm
    exact absurd (CallShape.opens_of_match? hm) (by decide)
  | cons s ss ih =>
    rw [List.forall_mem_cons] at hw
    rw [List.pairwise_cons] at ha
    have hend : LineEnd s.action.found.text (document (ss.map (·.action))) :=
      lineEnd_document hw.1 (List.forall_mem_map.2 hw.2) (List.forall_mem_map.2 ha.1)
    have hcall := Action.ofMatch?_found hw.1 0
    have hshift := layOut_shift (s.action.written.text.size + 1) 0 ss
    rw [List.map_cons, document_cons]
    have := (ih hw.2 ha.2).line hend ⟨_, [], _, _, rfl, Action.match?_found hw.1 _, hcall, rfl⟩ rfl
      (by rw [← Action.text_written]; exact Nat.zero_add _) fun kind m hm => by
        by_cases hk : kind = s.action.kind
        · subst hk
          rw [Action.match?_found hw.1] at hm
          rw [← Option.some.inj hm, hcall]
        · rw [Action.match?_found_of_ne hk] at hm
          exact absurd hm nofun
    have hplace : 0 + s.action.written.text.size + 1 = s.action.written.text.size + 1 + 0 := by omega
    rw [← Action.text_written, ← hshift, ← hplace] at this
    rw [← Action.text_written]
    exact this

namespace Rewrite

theorem writeRun_lines {ss : List Step} (hw : ∀ s ∈ ss, s.action.Writable) (text : Text)
    (placed : List Placed) :
    writeRun [] ['\n'] ss text placed = .ok (text ++ document (ss.map (·.action)),
      placed ++ (layOut text.size ss).map fun p => ⟨p.1.id, p.2.start, p.1.action.written⟩) := by
  induction ss generalizing text placed with
  | nil => simp [writeRun, document, layOut, pure, Except.pure]
  | cons s ss ih =>
    rw [List.forall_mem_cons] at hw
    rw [writeRun, Action.generate_eq_ok_iff.2 ⟨hw.1, rfl⟩]
    dsimp only [bind, Except.bind]
    rw [ih hw.2]
    have hsize : (text ++ [] ++ s.action.written.text ++ ['\n']).size
        = text.size + s.action.written.text.size + 1 := by
      rw [List.append_nil, Text.size_line, Text.size_append]
      rfl
    rw [hsize]
    simp [layOut, Action.text_written]

theorem zip_pairs_nil (slot : Nat) (ss : List Step) :
    ss.zip (pairs slot ss []) = ss.map fun s => (s, none) := by
  induction ss with
  | nil => rfl
  | cons s ss ih => rw [pairs_cons_of_none rfl, List.zip_cons_cons, ih, List.map_cons]

theorem filterMapM_eq_nil {ε α β : Type} {f : α → Except ε (Option β)} {xs : List α}
    (h : ∀ x ∈ xs, f x = .ok none) : xs.filterMapM f = .ok [] := by
  induction xs with
  | nil => rfl
  | cons x xs ih =>
    rw [List.forall_mem_cons] at h
    rw [List.filterMapM_cons, h.1]
    exact ih h.2

theorem runs_unpaired (previous : Option Nat) (ss run : List Step) :
    runs previous (ss.map fun s => (s, none)) run
      = if run = [] ∧ ss = [] then [] else [(previous, run.reverse ++ ss, none)] := by
  induction ss generalizing run with
  | nil => cases run <;> simp [runs]
  | cons s ss ih => simp [runs, ih]

/-- A run without any step to pair it with is written in one piece. -/
theorem synthesize_insertion {steps xs : List Step} {index : Nat} {source : Source} {part : Part}
    (hindex : index ≤ steps.length) (hne : xs ≠ [])
    (h : insertion source xs (sitesOf (steps.drop index)).head?
      (sitesOf (steps.take index)).getLast? = .ok part) :
    synthesize steps (.insert index xs) source = .ok ⟨[part.edit], placedSites 0 [part]⟩ := by
  have hrange : (checkRange index 0 steps.length).mapError WriteError.outOfRange = .ok () := by
    rw [checkRange, if_pos (Nat.add_zero index ▸ hindex)]
    rfl
  have hpatched : (xs.map fun s => (s, none)).filterMapM (patching []) = .ok [] :=
    filterMapM_eq_nil (List.forall_mem_map.2 fun _ _ => rfl)
  have hinserted : [(none, xs, none)].mapM (inserting source steps ⟨index, 0, xs⟩) = .ok [part] := by
    rw [List.mapM_cons, show inserting source steps ⟨index, 0, xs⟩ (none, xs, none) = .ok part from h]
    rfl
  have hruns : runs none (xs.map fun s => (s, none)) [] = [(none, xs, none)] := by
    rw [runs_unpaired, if_neg fun hnil => hne hnil.2]
    rfl
  rw [synthesize_eq]
  simp only [RoutineEdit.insert, List.take_zero, zip_pairs_nil, hruns, hpatched, hinserted, hrange]
  simp [goneSites, patchParts, arranged, mergeDeletions, mergeDeletions.go, bind, Except.bind, pure,
    Except.pure]

theorem synthesize_document {ss : List Step} (hne : ss ≠ []) (hw : ∀ s ∈ ss, s.action.Writable) :
    synthesize [] (.insert 0 ss) (.bySearch []) = .ok
      ⟨[⟨⟨0, 0⟩, document (ss.map (·.action))⟩], (layOut 0 ss).map fun p => (p.1.id, p.2)⟩ := by
  have hinsertion : insertion (.bySearch []) ss none none = .ok ⟨⟨⟨0, 0⟩, document (ss.map (·.action))⟩,
      (layOut 0 ss).map fun p => ⟨p.1.id, p.2.start, p.1.action.written⟩⟩ := by
    have := writeRun_lines hw [] []
    rw [insertion_of_frame rfl]
    show (writeRun [] ['\n'] ss [] []).map (fun x => (⟨⟨⟨0, 0⟩, x.1⟩, x.2⟩ : Part)) = _
    rw [this]
    rfl
  have hsites : (layOut 0 ss).map (fun p => (p.1.id, (⟨p.2.start, p.2.start + p.1.action.written.text.size,
      p.1.action.written.text, p.1.action.written.params⟩ : CallSite)))
      = (layOut 0 ss).map fun p => (p.1.id, p.2) :=
    List.map_congr_left fun p hp => by rw [← site_of_mem_layOut hp]
  have hplace : movePlace 0 0 = 0 := by simp [movePlace]
  rw [@synthesize_insertion [] ss 0 _ _ (Nat.le_refl 0) hne hinsertion]
  simp [hplace, hsites, placedSites_cons, placedSites_nil, Placed.siteAt, Function.comp_def]

/-- A document that is written for steps is scanned back to them, at the places that are told. -/
theorem scan_synthesize {ss : List Step} (hne : ss ≠ []) (hids : (ss.map (·.id)).Nodup)
    (hw : ∀ s ∈ ss, s.action.Writable) (ha : ss.Pairwise fun s t => s.action.Apart t.action) :
    ∃ r e, synthesize [] (.insert 0 ss) (.bySearch []) = .ok r ∧ r.edits = [e] ∧
      (scan e.text).map (fun c => (c.action, some c.site))
        = ss.map fun s => (s.action.filled, r.siteOf? s.id) := by
  refine ⟨_, _, synthesize_document hne hw, rfl, ?_⟩
  generalize hr : (⟨_, _⟩ : Rewrite) = r
  have hsites : r.sites = (layOut 0 ss).map fun p => (p.1.id, p.2) := by rw [← hr]
  have hnodup : (r.sites.map (·.1)).Nodup := by
    rw [hsites, List.map_map]
    rw [← map_layOut 0 ss, List.map_map] at hids
    exact hids
  have hsite : ∀ p ∈ layOut 0 ss, r.siteOf? p.1.id = some p.2 := fun p hp =>
    siteOf?_eq_some hnodup (hsites ▸ List.mem_map_of_mem hp)
  calc (scan (document (ss.map (·.action)))).map (fun c => (c.action, some c.site))
      = (layOut 0 ss).map fun p => (p.1.action.filled, some p.2) := by
        rw [(spread_document hw ha).scan_eq, List.map_map]
        rfl
    _ = (layOut 0 ss).map fun p => (p.1.action.filled, r.siteOf? p.1.id) :=
        List.map_congr_left fun p hp => by rw [hsite p hp]
    _ = ((layOut 0 ss).map (·.1)).map fun s => (s.action.filled, r.siteOf? s.id) := by
        rw [List.map_map]
        rfl
    _ = ss.map fun s => (s.action.filled, r.siteOf? s.id) := by rw [map_layOut]

/-- Before the speed limit, which is given, the default of the turning direction is written. -/
theorem scan_synthesize_reversed :
    ∃ r e, synthesize [] (.insert 0
        [⟨⟨1⟩, .follow "auton::wait(5);".toList 1 (.ofInt 2) none none none, none⟩,
          ⟨⟨2⟩, .turnTo (.ofInt 1) (.ofInt 2) 3 none (some (.ofInt 50)) none, none⟩]) (.bySearch []) = .ok r ∧
      r.edits = [e] ∧
      (scan e.text).map (fun c => (c.action, some c.site))
        = [(.follow "auton::wait(5);".toList 1 (.ofInt 2) none none none, r.siteOf? ⟨1⟩),
          (.turnTo (.ofInt 1) (.ofInt 2) 3 (some false) (some (.ofInt 50)) none, r.siteOf? ⟨2⟩)] :=
  @scan_synthesize [⟨⟨1⟩, .follow "auton::wait(5);".toList 1 (.ofInt 2) none none none, none⟩,
    ⟨⟨2⟩, .turnTo (.ofInt 1) (.ofInt 2) 3 none (some (.ofInt 50)) none, none⟩] (by simp) (by decide)
    (by unfold Action.Writable; decide +kernel) (by unfold Action.Apart; decide +kernel)

/-- A text that opens a block comment can hide a call that is written behind it. -/
theorem scan_synthesize_hidden :
    ∃ ss r e, ss = [⟨⟨1⟩, .follow "auton::wait(/*".toList 1 (.ofInt 2) none none none, none⟩,
        ⟨⟨2⟩, .wait 7, none⟩, ⟨⟨3⟩, .follow "*/5);".toList 1 (.ofInt 2) none none none, none⟩] ∧
      (ss.map (·.id)).Nodup ∧ (∀ s ∈ ss, s.action.Writable) ∧
      synthesize [] (.insert 0 ss) (.bySearch []) = .ok r ∧ r.edits = [e] ∧
      (scan e.text).map (·.action) ≠ ss.map (·.action.filled) := by
  have hw : ∀ s ∈ ([⟨⟨1⟩, .follow "auton::wait(/*".toList 1 (.ofInt 2) none none none, none⟩,
      ⟨⟨2⟩, .wait 7, none⟩, ⟨⟨3⟩, .follow "*/5);".toList 1 (.ofInt 2) none none none, none⟩] : List Step),
      s.action.Writable := by
    unfold Action.Writable
    decide +kernel
  have htext : document [.follow "auton::wait(/*".toList 1 (.ofInt 2) none none none, .wait 7,
      .follow "*/5);".toList 1 (.ofInt 2) none none none] =
      "auton::follow(\"auton::wait(/*\", 1, 2);\nauton::wait(7);\nauton::follow(\"*/5);\", 1, 2);\n".toList := by
    decide +kernel
  -- the one call of this kind that is found starts in the first text and ends in the third
  have hfive : ∀ p ∈ (CallShape.standard (Action.wait 7).kind).occurrences
      "auton::follow(\"auton::wait(/*\", 1, 2);\nauton::wait(7);\nauton::follow(\"*/5);\", 1, 2);\n".toList,
      (ScannedCall.ofMatch? (Action.wait 7).kind p.1 p.2).map (·.action) = some (.wait 5) := by
    rw [CallShape.occurrences, CallShape.matchColumn_eq]
    decide +kernel
  refine ⟨_, _, _, rfl, by decide, hw, synthesize_document (by simp) hw, rfl, fun heq => ?_⟩
  obtain ⟨c, hc, hcall⟩ : ∃ c ∈ scan (document _), c.action = .wait 7 :=
    List.mem_map.1 (heq ▸ List.mem_map_of_mem (List.mem_cons_of_mem _ List.mem_cons_self))
  obtain ⟨p, hp, hm⟩ := exists_occurrence_of_mem_scan (htext ▸ hc)
  rw [hcall] at hp hm
  have := hfive p hp
  rw [hm, Option.map_some, hcall] at this
  exact absurd this (by decide)

end Rewrite

end RoutineSync
