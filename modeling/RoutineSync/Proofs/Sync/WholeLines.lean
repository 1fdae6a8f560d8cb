import RoutineSync.Proofs.Sync.Document
/-!
Calls on lines of their own: what writes them between two others, and what takes them out again. The
deletions of lines next to each other stand one behind the other, except that the deletion of a last
line without a newline claims the newline before it.
-/
set_option autoImplicit false

namespace RoutineSync

namespace TextEdit

/-- The deletions of texts that stand one behind the other from a place on. -/
def cutOut : Nat → List Text → List TextEdit
  | _, [] => []
  | place, x :: xs => ⟨⟨place, place + x.size⟩, []⟩ :: cutOut (place + x.size) xs

theorem cutOut_append (place : Nat) (xs ys : List Text) :
    cutOut place (xs ++ ys) = cutOut place xs ++ cutOut (place + Text.size xs.flatten) ys := by
  induction xs generalizing place with
  | nil => rfl
  | cons x xs ih =>
    rw [List.cons_append, cutOut, ih, cutOut, List.flatten_cons, Text.size_append, ← Nat.add_assoc]
    rfl

theorem applyFrom_cutOut {p place : Nat} {u : Text} {xs : List Text} (h : p + u.size = place)
    (w : Text) :
    applyFrom p (cutOut place xs) (u ++ xs.flatten ++ w) = u ++ w := by
  induction xs generalizing p place u with
  | nil => simp [cutOut, applyFrom_nil]
  | cons x xs ih =>
    subst h
    have hcut := applyFrom_cons p u x (xs.flatten ++ w) [] (cutOut (p + u.size + x.size) xs)
    have hrest := @ih (p + u.size + x.size) _ [] rfl
    rw [List.nil_append, List.nil_append, Text.size_nil, Nat.add_zero] at hrest
    rw [hrest, List.append_nil] at hcut
    rw [cutOut, List.flatten_cons]
    simpa only [List.append_assoc] using hcut

theorem mem_cutOut {place : Nat} {xs : List Text} (hne : ∀ x ∈ xs, x ≠ []) {e : TextEdit}
    (h : e ∈ cutOut place xs) :
    place ≤ e.range.start ∧ e.range.start < e.range.stop ∧
      e.range.stop ≤ place + Text.size xs.flatten := by
  induction xs generalizing place with
  | nil => exact absurd h List.not_mem_nil
  | cons x xs ih =>
    rw [List.forall_mem_cons] at hne
    have hpos := Text.size_pos_of_ne_nil hne.1
    rw [List.flatten_cons, Text.size_append]
    rcases List.mem_cons.1 h with rfl | h
    · simp only
      omega
    · have := ih hne.2 h
      omega

theorem totalDelta_cutOut (place : Nat) (xs : List Text) :
    totalDelta (cutOut place xs) = -(Text.size xs.flatten : Int) := by
  induction xs generalizing place with
  | nil => simp [cutOut, totalDelta]
  | cons x xs ih =>
    rw [cutOut, totalDelta, ih, List.flatten_cons, Text.size_append]
    simp only [delta, Text.size_nil]
    omega

theorem land_none {es : List TextEdit} {counts : TextEdit → Bool} {n : Nat}
    (h : ∀ e ∈ es, counts e = false) (hn : n ≤ maxPlace) : land es counts n = n := by
  have hnil : es.filter counts = [] := List.filter_eq_nil_iff.2 fun e he => by simp [h e he]
  simp only [land_eq, hnil, totalDelta, movePlace]
  omega

theorem land_all {es : List TextEdit} {counts : TextEdit → Bool} {n : Nat}
    (h : ∀ e ∈ es, counts e = true) : land es counts n = movePlace n (totalDelta es) := by
  rw [land_eq, List.filter_eq_self.2 h]

theorem land_cutOut_before {place n : Nat} {xs : List Text} (hne : ∀ x ∈ xs, x ≠ []) (h : n ≤ place)
    (hn : n ≤ maxPlace) :
    landStart (cutOut place xs) n = n ∧ landEnd (cutOut place xs) n = n := by
  constructor
  · refine land_none (fun e he => ?_) hn
    have := mem_cutOut hne he
    rw [decide_eq_false_iff_not]
    omega
  · refine land_none (fun e he => ?_) hn
    have := mem_cutOut hne he
    rw [Bool.and_eq_false_iff, decide_eq_false_iff_not]
    omega

theorem land_cutOut_behind {place n : Nat} {xs : List Text} (hne : ∀ x ∈ xs, x ≠ [])
    (h : place + Text.size xs.flatten ≤ n) (hn : n ≤ maxPlace) :
    landStart (cutOut place xs) n = n - Text.size xs.flatten ∧
      landEnd (cutOut place xs) n = n - Text.size xs.flatten := by
  have hmove : movePlace n (totalDelta (cutOut place xs)) = n - Text.size xs.flatten := by
    rw [totalDelta_cutOut, movePlace]
    omega
  constructor
  · rw [landStart_eq, land_all, hmove]
    intro e he
    have := mem_cutOut hne he
    rw [countsAtStart_iff]
    omega
  · rw [landEnd_eq, land_all, hmove]
    intro e he
    have := mem_cutOut hne he
    rw [countsAtEnd_iff]
    omega

theorem land_insertion {place n : Nat} {text : Text} (hn : n + text.size ≤ maxPlace) :
    landStart [⟨⟨place, place⟩, text⟩] n = (if place ≤ n then n + text.size else n) ∧
      landEnd [⟨⟨place, place⟩, text⟩] n = (if place < n then n + text.size else n) := by
  have hdelta : totalDelta [⟨⟨place, place⟩, text⟩] = text.size := by simp [totalDelta, delta]
  constructor
  · split
    · rename_i h
      rw [landStart_eq, land_all (by simpa [countsAtStart] using h), hdelta, movePlace]
      omega
    · rename_i h
      exact land_none (by simpa using h) (by omega)
  · split
    · rename_i h
      rw [landEnd_eq, land_all (by simp [countsAtEnd_iff]; omega), hdelta, movePlace]
      omega
    · rename_i h
      exact land_none (by simp [isInsertionAt]; omega) (by omega)

end TextEdit

namespace Rewrite
open TextEdit (cutOut mem_cutOut)

def Part.deleting (e : TextEdit) : Part := ⟨e, []⟩

theorem mergeDeletions_cutOut (place : Nat) (xs : List Text) (x : Text) (tail : List Part) :
    mergeDeletions ((cutOut place (xs ++ [x])).map .deleting ++ tail)
      = (cutOut place xs).map .deleting ++
        mergeDeletions (.deleting ⟨⟨place + Text.size xs.flatten,
          place + Text.size xs.flatten + x.size⟩, []⟩ :: tail) := by
  induction xs generalizing place with
  | nil => rfl
  | cons y ys ih =>
    have hhead : ∃ p ps, (cutOut (place + y.size) (ys ++ [x])).map Part.deleting ++ tail = p :: ps ∧
        p.edit.range.start = place + y.size := by
      cases ys <;> exact ⟨_, _, rfl, rfl⟩
    obtain ⟨p, ps, hp, hstart⟩ := hhead
    have hmerge := ih (place + y.size)
    rw [hp] at hmerge
    rw [List.cons_append, cutOut, List.map_cons, List.cons_append, hp, mergeDeletions,
      mergeDeletions.go_cons, if_neg]
    · show _ :: mergeDeletions (p :: ps) = _
      rw [hmerge, List.flatten_cons, Text.size_append, ← Nat.add_assoc]
      rfl
    · rw [hstart]
      simp [Part.deleting]

theorem arranged_eq_of_pairwise {parts : List Part} (h : parts.Pairwise fun p q => p.le q) :
    arranged parts = mergeDeletions parts := by
  rw [arranged, List.mergeSort_of_pairwise h]

theorem pairwise_cutOut {place : Nat} {xs : List Text} (hne : ∀ x ∈ xs, x ≠ []) :
    ((cutOut place xs).map Part.deleting).Pairwise fun p q => p.le q := by
  induction xs generalizing place with
  | nil => exact .nil
  | cons x xs ih =>
    rw [List.forall_mem_cons] at hne
    have hpos := Text.size_pos_of_ne_nil hne.1
    rw [cutOut, List.map_cons, List.pairwise_cons]
    refine ⟨fun q hq => ?_, ih hne.2⟩
    obtain ⟨e, he, rfl⟩ := List.mem_map.1 hq
    have := mem_cutOut hne.2 he
    rw [Part.le_iff]
    simp only [Part.deleting]
    omega

theorem arranged_cutOut {place : Nat} {xs : List Text} (hne : ∀ x ∈ xs, x ≠ []) :
    arranged ((cutOut place xs).map .deleting) = (cutOut place xs).map .deleting := by
  rw [arranged_eq_of_pairwise (pairwise_cutOut hne)]
  rcases List.eq_nil_or_concat xs with rfl | ⟨xs, x, rfl⟩
  · rfl
  · have := mergeDeletions_cutOut place xs x []
    rw [List.append_nil] at this
    rw [List.concat_eq_append, this]
    rw [TextEdit.cutOut_append, List.map_append]
    rfl

/-- The deletion of a last line takes the newline before it, so it is joined with the deletion
before. -/
theorem arranged_cutOut_last (place : Nat) {xs : List Text} {x : Text} (y : Text)
    (hne : ∀ z ∈ xs, z ≠ [])
    (hx : x ≠ []) :
    let stop := place + Text.size (xs ++ [x]).flatten
    arranged ((cutOut place (xs ++ [x])).map .deleting ++ [.deleting ⟨⟨stop - 1, stop + y.size⟩, []⟩])
      = (cutOut place (xs ++ [x ++ y])).map .deleting := by
  intro stop
  have hpos := Text.size_pos_of_ne_nil hx
  have hstop : stop = place + Text.size xs.flatten + x.size := by
    simp only [stop, List.flatten_append, Text.size_append, List.flatten_singleton, Nat.add_assoc]
  have hne' : ∀ z ∈ xs ++ [x], z ≠ [] := by simpa [or_imp, forall_and] using ⟨hne, hx⟩
  rw [arranged_eq_of_pairwise, mergeDeletions_cutOut, TextEdit.cutOut_append, List.map_append]
  · rw [mergeDeletions, mergeDeletions.go_cons, if_pos]
    · simp only [mergeDeletions.go, Part.join, Part.deleting, cutOut, List.map_cons, List.map_nil,
        Text.size_append, hstop]
      rw [Nat.max_eq_right (Nat.le_add_right _ _), Nat.add_assoc _ x.size]
    · simp only [Part.isDeletion, Part.deleting, List.isEmpty_nil, Bool.and_self, Bool.true_and,
        decide_eq_true_eq, hstop]
      omega
  · rw [List.pairwise_append]
    refine ⟨pairwise_cutOut hne', List.pairwise_singleton _ _, fun p hp q hq => ?_⟩
    obtain rfl := List.mem_singleton.1 hq
    obtain ⟨e, he, rfl⟩ := List.mem_map.1 hp
    have := mem_cutOut hne' he
    rw [Part.le_iff]
    simp only [Part.deleting, stop]
    omega

/-! A call alone on its line. -/

def Indent (p : Text) : Prop := ∀ c ∈ p, c = ' ' ∨ c = '\t'

theorem Indent.blank {p : Text} (h : Indent p) : ∀ c ∈ p, Text.isBlank c = true := by
  intro c hc
  rcases h c hc with rfl | rfl <;> decide

theorem Indent.unbroken {p : Text} (h : Indent p) : '\n' ∉ p := fun hn => by
  have := h _ hn
  revert this
  decide

/-- Whether a line can start behind a text. -/
def StartsLine (u : Text) : Prop := u = [] ∨ ∃ w : Text, u = w ++ ['\n']

theorem indentation_line {u p : Text} (hu : StartsLine u) (hp : Indent p) (v : Text) :
    indentation (.byCount (u ++ p ++ v)) (u ++ p).size = p := by
  have hslice := Text.slice_append u p v
  show ((u ++ p ++ v).slice ((Source.byCount (u ++ p ++ v)).lineStart (u ++ p).size)
    (u ++ p).size).takeWhile _ = p
  rw [Source.lineStart_byCount v hp.unbroken hu, Text.size_append, hslice]
  refine List.takeWhile_eq_self_iff.2 fun c hc => ?_
  rcases hp c hc with rfl | rfl <;> rfl

variable {u p g v : Text} {s : CallSite}

/-- The call `g` stands alone on its line: the line goes with it. -/
theorem deletion_line (hu : StartsLine u) (hp : Indent p) (hv : v = [] ∨ ∃ w : Text, v = '\n' :: w)
    (hstart : s.start = (u ++ p).size) (hstop : s.stop = (u ++ p ++ g).size) :
    deletion (.byCount (u ++ p ++ g ++ v)) s =
      if v ≠ [] then ⟨u.size, (u ++ p ++ g).size + 1⟩
      else if u ≠ [] then ⟨u.size - 1, (u ++ p ++ g).size⟩ else ⟨u.size, (u ++ p ++ g).size⟩ := by
  have hline := Source.lineStart_byCount (g ++ v) hp.unbroken hu
  have hend := Source.lineEnd_byCount (u ++ p ++ g) (a := []) List.not_mem_nil hv
  rw [← List.append_assoc] at hline
  rw [List.nil_append, List.append_nil] at hend
  have hslice := Text.slice_append u p (g ++ v)
  rw [← Text.size_append, ← List.append_assoc] at hslice
  have hslice' := Text.slice_append (u ++ p ++ g) [] v
  rw [List.append_nil, Text.size_nil, Nat.add_zero] at hslice'
  have hread : (Source.byCount (u ++ p ++ g ++ v)).slice = (u ++ p ++ g ++ v).slice := rfl
  have hsize : (Source.byCount (u ++ p ++ g ++ v)).size = (u ++ p ++ g ++ v).size := rfl
  rw [deletion_eq]
  simp only [hstart, hstop, hline, hend, hread, hsize, hslice, hslice']
  rw [if_neg]
  · have hlt : (u ++ p ++ g).size < (u ++ p ++ g ++ v).size ↔ v ≠ [] := by
      rw [Text.size_append _ v, Ne, ← Text.size_eq_zero_iff]
      omega
    have hpos : 0 < u.size ↔ u ≠ [] := by
      rw [Ne, ← Text.size_eq_zero_iff]
      omega
    simp only [hlt, hpos]
  · simpa using hp.blank

def line (p : Text) (x : Step) : Text := p ++ x.action.written.text ++ ['\n']

theorem line_ne_nil (p : Text) (x : Step) : line p x ≠ [] := by simp [line]

/-- Where the calls of steps stand that are written line by line from a place on. -/
def layLines (p : Text) : Nat → List Step → List (Step × CallSite)
  | _, [] => []
  | place, x :: xs =>
    let call := x.action.written
    let start := place + p.size
    (x, ⟨start, start + call.text.size, call.text, call.params⟩) ::
      layLines p (start + call.text.size + 1) xs

theorem map_layLines (p : Text) (place : Nat) (xs : List Step) :
    (layLines p place xs).map (·.1) = xs := by
  induction xs generalizing place with
  | nil => rfl
  | cons x xs ih => simp [layLines, ih]

theorem size_line (p : Text) (x : Step) :
    (line p x).size = p.size + x.action.written.text.size + 1 := by
  rw [line, Text.size_append, Text.size_append]
  rfl

theorem deletions_lines {xs : List Step} (hu : StartsLine u) (hp : Indent p) (v : Text) :
    (layLines p u.size xs).map
        (fun q => Part.deleting ⟨deletion (.byCount (u ++ (xs.map (line p)).flatten ++ v)) q.2, []⟩)
      = (cutOut u.size (xs.map (line p))).map .deleting := by
  induction xs generalizing u with
  | nil => rfl
  | cons x xs ih =>
    have hsize : (u ++ line p x).size = u.size + p.size + x.action.written.text.size + 1 := by
      rw [Text.size_append, size_line]
      omega
    have hrest := @ih (u ++ line p x) (.inr ⟨u ++ p ++ x.action.written.text, by simp [line]⟩)
    have hfirst := deletion_line (g := x.action.written.text)
      (v := '\n' :: ((xs.map (line p)).flatten ++ v)) hu hp (.inr ⟨_, rfl⟩)
      (s := ⟨u.size + p.size, u.size + p.size + x.action.written.text.size,
        x.action.written.text, x.action.written.params⟩)
      (Text.size_append u p).symm (by simp only [Text.size_append])
    have htext : u ++ ((x :: xs).map (line p)).flatten ++ v
        = u ++ p ++ x.action.written.text ++ '\n' :: ((xs.map (line p)).flatten ++ v) := by
      simp [line]
    have htext' : u ++ ((x :: xs).map (line p)).flatten ++ v
        = u ++ line p x ++ (xs.map (line p)).flatten ++ v := by simp
    rw [if_pos (List.cons_ne_nil _ _)] at hfirst
    rw [hsize] at hrest
    rw [layLines, List.map_cons, List.map_cons, cutOut, List.map_cons, size_line]
    refine congrArg₂ List.cons ?_ ?_
    · rw [← List.map_cons, htext, hfirst]
      simp only [Text.size_append, Nat.add_assoc]
    · rw [← List.map_cons, htext']
      simpa only [Nat.add_assoc] using hrest

theorem layLines_append (p : Text) (place : Nat) (xs ys : List Step) :
    layLines p place (xs ++ ys)
      = layLines p place xs ++ layLines p (place + Text.size (xs.map (line p)).flatten) ys := by
  induction xs generalizing place with
  | nil => rfl
  | cons x xs ih =>
    have hplace : place + p.size + x.action.written.text.size + 1
        + Text.size (xs.map (line p)).flatten
        = place + Text.size ((x :: xs).map (line p)).flatten := by
      rw [List.map_cons, List.flatten_cons, Text.size_append, size_line]
      omega
    rw [List.cons_append, layLines, layLines, ih, hplace]
    rfl

theorem startsLine_lines (hu : StartsLine u) (p : Text) (xs : List Step) :
    StartsLine (u ++ (xs.map (line p)).flatten) := by
  rcases List.eq_nil_or_concat xs with rfl | ⟨xs, x, rfl⟩
  · simpa using hu
  · exact .inr ⟨u ++ (xs.map (line p)).flatten ++ p ++ x.action.written.text, by simp [line]⟩

/-- The last line has no newline of its own: the one before it is deleted with it. -/
theorem deletions_lastLine (xs : List Step) (hu : StartsLine u) (hne : u ≠ []) (hp : Indent p)
    (x : Step) :
    let last := p ++ x.action.written.text
    let stop := u.size + Text.size (xs.map (line p)).flatten
    (layLines p u.size (xs ++ [x])).map
        (fun q => Part.deleting ⟨deletion (.byCount (u ++ (xs.map (line p)).flatten ++ last)) q.2, []⟩)
      = (cutOut u.size (xs.map (line p))).map .deleting ++
        [.deleting ⟨⟨stop - 1, stop + last.size⟩, []⟩] := by
  intro last stop
  have hsize : (u ++ (xs.map (line p)).flatten).size = stop := Text.size_append _ _
  have hdeletion := deletion_line (g := x.action.written.text) (v := []) (startsLine_lines hu p xs) hp
    (.inl rfl) (s := ⟨stop + p.size, stop + p.size + x.action.written.text.size,
      x.action.written.text, x.action.written.params⟩)
    (by rw [Text.size_append, hsize]) (by rw [Text.size_append, Text.size_append, hsize])
  rw [if_neg (not_not.2 rfl), if_pos (List.append_ne_nil_of_left_ne_nil hne _), List.append_nil,
    List.append_assoc _ p, Text.size_append _ (p ++ _), hsize] at hdeletion
  rw [layLines_append, List.map_append, deletions_lines hu hp]
  exact congrArg _ (congrArg (fun range => [Part.deleting ⟨range, []⟩]) hdeletion)

/-- The calls of a run stand on lines, whether each is written before a newline or behind one. -/
theorem writeRun_layLines (lead trail text : Text) (placed : List Placed) {xs : List Step}
    (place start : Nat) (hw : ∀ x ∈ xs, x.action.Writable)
    (hlength : lead.size + trail.size = p.size + 1)
    (hplace : place + text.size + lead.size = start + p.size) :
    ∃ new, writeRun lead trail xs text placed = .ok
        (text ++ xs.flatMap (fun x => lead ++ x.action.written.text ++ trail), placed ++ new) ∧
      new.map (fun w => (w.id, w.siteAt place)) = (layLines p start xs).map fun q => (q.1.id, q.2) := by
  induction xs generalizing text placed start with
  | nil => exact ⟨[], by simp [writeRun, pure, Except.pure], rfl⟩
  | cons x xs ih =>
    rw [List.forall_mem_cons] at hw
    have hnext : place + (text ++ lead ++ x.action.written.text ++ trail).size + lead.size
        = start + p.size + x.action.written.text.size + 1 + p.size := by
      simp only [Text.size_append]
      omega
    obtain ⟨new, hrun, hnew⟩ := @ih _ (placed ++ [⟨x.id, (text ++ lead).size, x.action.written⟩]) _
      hw.2 hnext
    refine ⟨⟨x.id, (text ++ lead).size, x.action.written⟩ :: new, ?_, ?_⟩
    · rw [writeRun, Action.generate_eq_ok_iff.2 ⟨hw.1, rfl⟩]
      dsimp only [bind, Except.bind]
      rw [hrun]
      simp
    · have hoffset : place + (text ++ lead).size = start + p.size := by
        rw [Text.size_append]
        omega
      rw [List.map_cons, hnew, layLines, List.map_cons, Placed.siteAt, hoffset]

theorem placedSites_deleting (shift : Int) (es : List TextEdit) :
    placedSites shift (es.map .deleting) = [] := by
  induction es generalizing shift with
  | nil => rfl
  | cons e es ih => exact ih _

theorem goneSites_unpaired (sites : List CallSite) : goneSites (sites.map some) [] = sites := by
  unfold goneSites
  generalize 0 = n
  induction sites generalizing n with
  | nil => rfl
  | cons s sites ih => exact congrArg (List.cons s) (ih (n + 1))

/-- Where steps only go, only their calls are deleted. -/
theorem synthesize_removal {steps : List Step} (qs : List (Step × CallSite)) {index : Nat}
    (source : Source) {es : List TextEdit} (hindex : index + qs.length ≤ steps.length)
    (hsteps : (steps.drop index).take qs.length = qs.map fun q => { q.1 with site := some q.2 })
    (h : arranged (qs.map fun q => .deleting ⟨deletion source q.2, []⟩) = es.map .deleting) :
    synthesize steps (.remove index qs.length) source = .ok ⟨es, []⟩ := by
  have hrange : (checkRange index qs.length steps.length).mapError WriteError.outOfRange = .ok () := by
    rw [checkRange, if_pos hindex]
    rfl
  have hgone : goneSites ((qs.map fun q => ({ q.1 with site := some q.2 } : Step)).map (·.site)) []
      = qs.map (·.2) := by
    rw [← goneSites_unpaired (qs.map (·.2)), List.map_map, List.map_map]
    rfl
  have hedits : (es.map Part.deleting).map (·.edit) = es := by
    rw [List.map_map]
    exact List.map_id es
  have hparts : arranged ((qs.map (·.2)).map fun g => (⟨⟨deletion source g, []⟩, []⟩ : Part))
      = es.map .deleting := by
    rw [← h, List.map_map]
    rfl
  rw [synthesize_eq]
  simp only [RoutineEdit.remove, hsteps, pairs_nil, List.zip_nil_left, runs, hgone, hrange]
  simp only [List.filterMapM_nil, List.mapM_nil, List.isEmpty_nil, if_true, patchParts,
    List.flatMap_nil, List.append_nil, List.map_nil, hparts, hedits, placedSites_deleting,
    bind, Except.bind, pure, Except.pure]

end Rewrite

end RoutineSync
