import RoutineSync.Proofs.Sync.WholeLines
/-!
Insertions taken back. New calls are written on lines of their own between calls that stand so, and
their lines are deleted again. Only behind a last call that ends the text more than one line leaves
something: deletions that are joined do not take the newline before the first of them.
-/
set_option autoImplicit false

namespace RoutineSync

open Rewrite (Indent StartsLine line layLines)
open TextEdit (cutOut)

/-- Before a call on its line stand only spaces and tabs, and behind it the line ends. -/
def CallSite.Lined (t : Text) (a : CallSite) : Prop :=
  ∃ u p v : Text, t = u ++ p ++ a.text ++ v ∧ a.start = (u ++ p).size ∧ StartsLine u ∧ Indent p ∧
    (v = [] ∨ ∃ w : Text, v = '\n' :: w)

namespace Rewrite

theorem flatMap_before (p : Text) (xs : List Step) :
    p ++ xs.flatMap (fun x => [] ++ x.action.written.text ++ '\n' :: p)
      = (xs.map (line p)).flatten ++ p := by
  induction xs with
  | nil => simp
  | cons x xs ih =>
    rw [List.flatMap_cons, List.map_cons, List.flatten_cons, List.append_assoc (line p x), ← ih]
    simp [line]

theorem flatMap_behind (p : Text) (xs : List Step) (w : Text) :
    xs.flatMap (fun x => '\n' :: p ++ x.action.written.text ++ []) ++ '\n' :: w
      = '\n' :: ((xs.map (line p)).flatten ++ w) := by
  induction xs with
  | nil => rfl
  | cons x xs ih =>
    rw [List.flatMap_cons, List.append_assoc, ih]
    simp [line]

theorem flatMap_last (p : Text) (xs : List Step) (x : Step) :
    (xs ++ [x]).flatMap (fun x => '\n' :: p ++ x.action.written.text ++ [])
      = '\n' :: ((xs.map (line p)).flatten ++ (p ++ x.action.written.text)) := by
  rw [List.flatMap_append, List.flatMap_singleton, List.append_nil, List.cons_append, flatMap_behind]

/-- A call on a line ends before the line of the next one starts. -/
theorem stop_lt_line {t u p : Text} {a b : CallSite} {v : Text} (ha : a.StandsIn t) (hla : a.Lined t)
    (hb : b.StandsIn t) (ht : t = u ++ p ++ b.text ++ v) (hstart : b.start = (u ++ p).size)
    (hp : Indent p) (hab : a.stop ≤ b.start) : a.stop < u.size := by
  obtain ⟨x, q, w, ht', hxq, -, -, hw⟩ := hla
  have hstop : a.stop = (x ++ q ++ a.text).size := by rw [Text.size_append, ← hxq, ha.stop_eq]
  have hw' : ∀ c r, w = c :: r → c = '\n' := by
    rintro c r rfl
    rcases hw with hw | ⟨r', hw⟩
    · exact absurd hw (List.cons_ne_nil c r)
    · exact (List.cons.inj hw).1
  by_contra hlt
  -- then the call ends in the indentation, where no newline follows
  have hsplit : u ++ (p ++ (b.text ++ v)) = x ++ q ++ a.text ++ w := by
    rw [← ht', ht]
    simp only [List.append_assoc]
  obtain ⟨m, hm, hrest⟩ := Text.exists_middle hsplit (by omega)
  have hle : m.size ≤ p.size := by
    have := congrArg Text.size hm
    rw [← hstop, Text.size_append] at this
    rw [hstart, Text.size_append] at hab
    omega
  obtain ⟨m', rfl, hw''⟩ := Text.exists_middle hrest.symm hle
  cases m' with
  | nil =>
    obtain ⟨r, hr⟩ := hb.proper.opens
    have htext : b.text = 'a' :: ("uton".toList ++ r) := hr.symm
    rw [htext, List.nil_append, List.cons_append] at hw''
    exact absurd (hw' _ _ hw'') (by decide)
  | cons c m' =>
    have hc : c = '\n' := hw' c _ hw''
    exact hp.unbroken (by simp [hc])

/-- An insertion of steps, on lines from a place on, and the edits that take them out again: the text
comes back with `left` behind it, and the calls that were there with their places. -/
structure TakenBack (t : Text) (sites : List CallSite) (xs : List Step) (r : Rewrite) (left p : Text)
    (place : Nat) (es : List TextEdit) : Prop where
  sites_eq : r.sites = (layLines p place xs).map fun q => (q.1.id, q.2)
  arranged_eq : arranged ((layLines p place xs).map fun q =>
    .deleting ⟨deletion (.byCount (TextEdit.applyAll r.edits t)) q.2, []⟩) = es.map .deleting
  text_eq : TextEdit.applyAll es (TextEdit.applyAll r.edits t) = t ++ left
  start_eq : ∀ a ∈ sites, TextEdit.landStart es (TextEdit.landStart r.edits a.start) = a.start
  stop_eq : ∀ a ∈ sites, TextEdit.landEnd es (TextEdit.landEnd r.edits a.stop) = a.stop

def inserted (place : Nat) (text : Text) (placed : List Placed) : Rewrite :=
  ⟨[⟨⟨place, place⟩, text⟩], placedSites 0 [⟨⟨⟨place, place⟩, text⟩, placed⟩]⟩

theorem applyAll_inserted (u v text : Text) (placed : List Placed) :
    TextEdit.applyAll (inserted u.size text placed).edits (u ++ v) = u ++ text ++ v := by
  have := TextEdit.applyFrom_cons 0 u [] v text []
  simpa [TextEdit.applyAll, inserted, TextEdit.applyFrom_nil] using this

theorem sites_inserted {place : Nat} (hplace : place ≤ maxPlace) (text : Text) (placed : List Placed) :
    (inserted place text placed).sites = placed.map fun w => (w.id, w.siteAt place) := by
  have hmove : movePlace place 0 = place := by
    rw [movePlace]
    omega
  simp [inserted, placedSites_cons, placedSites_nil, hmove]

variable {t v : Text} {steps xs : List Step} {pre post : List CallSite} {b : CallSite} {r : Rewrite}

theorem exists_insertion_before {u p : Text} (hw : ∀ x ∈ xs, x.action.Writable) (hu : StartsLine u)
    (hp : Indent p) (v : Text) (hstart : b.start = (u ++ p).size) (previous : Option CallSite) :
    ∃ new, insertion (.byCount (u ++ p ++ v)) xs (some b) previous = .ok ⟨⟨⟨b.start, b.start⟩,
        xs.flatMap fun x => [] ++ x.action.written.text ++ '\n' :: p⟩, new⟩ ∧
      new.map (fun w => (w.id, w.siteAt b.start))
        = (layLines p u.size xs).map fun q => (q.1.id, q.2) := by
  obtain ⟨new, hrun, hnew⟩ := writeRun_layLines (p := p) [] ('\n' :: p) [] [] b.start u.size hw
    (by rw [Text.size_cons, Text.utf8Size_newline, Text.size_nil]; omega)
    (by rw [hstart, Text.size_append]; simp)
  have hframe : ((Source.byCount (u ++ p ++ v)).access.frame (some b) previous : Id _).run
      = (b.start, [], [], '\n' :: p) := by
    show (b.start, [], [], '\n' :: indentation _ b.start) = _
    rw [hstart, indentation_line hu hp v]
  refine ⟨new, ?_, hnew⟩
  rw [insertion_of_frame hframe, hrun]
  rfl

/-- What is written line by line is cut out line by line, and every call stands before all of it or
behind all of it. -/
theorem takenBack_of_cutOut {sites : List CallSite} {p x y text : Text} {start : Nat}
    {new : List Placed} (w : Text) (ls : List Text) (v left : Text)
    (ha : ∀ a ∈ sites, a.StandsIn (x ++ y))
    (hs : (x ++ text ++ y).size ≤ maxPlace) (hne : ∀ l ∈ ls, l ≠ [])
    (hnew : new.map (fun w => (w.id, w.siteAt x.size))
      = (layLines p start xs).map fun q => (q.1.id, q.2))
    (hcut : x ++ text ++ y = w ++ ls.flatten ++ v) (hleft : w ++ v = x ++ y ++ left)
    (harranged : arranged ((layLines p start xs).map fun q =>
      .deleting ⟨deletion (.byCount (w ++ ls.flatten ++ v)) q.2, []⟩) = (cutOut w.size ls).map .deleting)
    (hplace : ∀ a ∈ sites, a.stop ≤ x.size ∧ a.stop ≤ w.size ∨
      w.size ≤ x.size ∧ x.size ≤ a.start ∧ text.size = Text.size ls.flatten) :
    TakenBack (x ++ y) sites xs (inserted x.size text new) left p start (cutOut w.size ls) := by
  have hwritten := applyAll_inserted x y text new
  have hsize : (x ++ y).size + text.size ≤ maxPlace := by
    simp only [Text.size_append] at hs ⊢
    omega
  have hlands : ∀ a ∈ sites,
      TextEdit.landStart (cutOut w.size ls) (TextEdit.landStart (inserted x.size text new).edits a.start)
        = a.start ∧
      TextEdit.landEnd (cutOut w.size ls) (TextEdit.landEnd (inserted x.size text new).edits a.stop)
        = a.stop := by
    intro a hm
    have hlt := (ha a hm).start_lt_stop
    have hle := (ha a hm).stop_le_size
    rw [inserted, (TextEdit.land_insertion (by omega)).1, (TextEdit.land_insertion (by omega)).2]
    rcases hplace a hm with ⟨h, h'⟩ | ⟨h, h', htext⟩
    · rw [if_neg (by omega), if_neg (by omega)]
      exact ⟨(TextEdit.land_cutOut_before hne (by omega) (by omega)).1,
        (TextEdit.land_cutOut_before hne h' (by omega)).2⟩
    · rw [if_pos h', if_pos (by omega), (TextEdit.land_cutOut_behind hne (by omega) (by omega)).1,
        (TextEdit.land_cutOut_behind hne (by omega) (by omega)).2]
      omega
  exact {
    sites_eq := by rw [sites_inserted (by simp only [Text.size_append] at hsize; omega), hnew]
    arranged_eq := by rw [hwritten, hcut, harranged]
    text_eq := by
      rw [hwritten, hcut, TextEdit.applyAll, TextEdit.applyFrom_cutOut (Nat.zero_add _), hleft]
    start_eq := fun a hm => (hlands a hm).1
    stop_eq := fun a hm => (hlands a hm).2 }

/-- Lines that are written before a call are taken back without a trace. -/
theorem exists_takenBack_before (hsites : steps.map (·.site) = (pre ++ b :: post).map some)
    (ha : Anchored t (pre ++ b :: post)) (hl : ∀ a ∈ pre ++ b :: post, a.Lined t) (hne : xs ≠ [])
    (hr : synthesize steps (.insert pre.length xs) (.byCount t) = .ok r)
    (hs : (TextEdit.applyAll r.edits t).size ≤ maxPlace) :
    ∃ p place es, TakenBack t (pre ++ b :: post) xs r [] p place es := by
  have hb := ha.stands b (by simp)
  obtain ⟨u, p, v, ht, hstart, hu, hp, -⟩ := hl b (by simp)
  have hindex : pre.length ≤ steps.length := (exists_synthesize_iff.1 ⟨r, hr⟩).1
  have hw : ∀ x ∈ xs, x.action.Writable := (exists_synthesize_iff.1 ⟨r, hr⟩).2
  have ht' : t = u ++ p ++ (b.text ++ v) := by rw [ht, List.append_assoc (u ++ p)]
  obtain ⟨new, hinsertion, hnew⟩ := exists_insertion_before hw hu hp (b.text ++ v) hstart
    (sitesOf (steps.take pre.length)).getLast?
  have hnext : (sitesOf (steps.drop pre.length)).head? = some b := by
    have hdrop : (steps.drop pre.length).map (·.site) = (b :: post).map some := by
      rw [List.map_drop, hsites, List.map_append, List.drop_left' (List.length_map _)]
    rw [sitesOf_eq hdrop, List.head?_cons]
  rw [← ht', ← hnext] at hinsertion
  obtain rfl : inserted _ _ _ = r :=
    Except.ok.inj ((synthesize_insertion hindex hne hinsertion).symm.trans hr)
  have hplace : ∀ a ∈ pre ++ b :: post, a.stop < u.size ∨ b.start ≤ a.start := by
    intro a hm
    obtain ⟨-, hpost, hpre⟩ := List.pairwise_append.1 ha.ordered
    rcases List.mem_append.1 hm with h | h
    · exact .inl (stop_lt_line (ha.stands a hm) (hl a hm) hb ht hstart hp
        (hpre a h b List.mem_cons_self))
    · rcases List.mem_cons.1 h with rfl | h
      · exact .inr (Nat.le_refl _)
      · have := (List.pairwise_cons.1 hpost).1 a h
        have := hb.start_lt_stop
        exact .inr (by omega)
  have hbefore := flatMap_before p xs
  have hadded := congrArg Text.size hbefore
  simp only [Text.size_append _ p, Text.size_append p] at hadded
  have hcut : u ++ p ++ xs.flatMap (fun x => [] ++ x.action.written.text ++ '\n' :: p)
      ++ (b.text ++ v)
      = u ++ (xs.map (line p)).flatten ++ (p ++ (b.text ++ v)) := by
    rw [List.append_assoc u p, hbefore]
    simp only [List.append_assoc]
  rw [hstart] at hnew hs hplace ⊢
  rw [ht', applyAll_inserted] at hs
  have hstands := ha.stands
  rw [ht'] at hstands ⊢
  have hnonempty : ∀ l ∈ xs.map (line p), l ≠ [] := List.forall_mem_map.2 fun x _ => line_ne_nil p x
  refine ⟨p, u.size, _, takenBack_of_cutOut u (xs.map (line p)) (p ++ (b.text ++ v)) [] hstands hs
    hnonempty hnew hcut
    (by simp only [List.append_assoc, List.append_nil]) ?_ fun a hm => ?_⟩
  · rw [deletions_lines hu hp, arranged_cutOut hnonempty]
  · rw [Text.size_append] at hplace ⊢
    rcases hplace a hm with h | h
    · exact .inl ⟨by omega, by omega⟩
    · exact .inr ⟨by omega, h, by omega⟩

theorem exists_insertion_behind {u p : Text} (hw : ∀ x ∈ xs, x.action.Writable) (hu : StartsLine u)
    (hp : Indent p) (v : Text) (hstart : b.start = (u ++ p).size) :
    ∃ new, insertion (.byCount (u ++ p ++ v)) xs none (some b) = .ok ⟨⟨⟨b.stop, b.stop⟩,
        xs.flatMap fun x => '\n' :: p ++ x.action.written.text ++ []⟩, new⟩ ∧
      new.map (fun w => (w.id, w.siteAt b.stop))
        = (layLines p (b.stop + 1) xs).map fun q => (q.1.id, q.2) := by
  obtain ⟨new, hrun, hnew⟩ := writeRun_layLines (p := p) ('\n' :: p) [] [] [] b.stop (b.stop + 1) hw
    (by rw [Text.size_cons, Text.utf8Size_newline, Text.size_nil]; omega)
    (by rw [Text.size_cons, Text.utf8Size_newline, Text.size_nil]; omega)
  have hframe : ((Source.byCount (u ++ p ++ v)).access.frame none (some b) : Id _).run
      = (b.stop, [], '\n' :: p, []) := by
    show (b.stop, [], '\n' :: indentation _ b.start, []) = _
    rw [hstart, indentation_line hu hp v]
  refine ⟨new, ?_, hnew⟩
  rw [insertion_of_frame hframe, hrun]
  rfl

section Behind
variable {sites : List CallSite} {x p : Text} {new : List Placed}

def behind (p : Text) (xs : List Step) : Text :=
  xs.flatMap fun x => '\n' :: p ++ x.action.written.text ++ []

/-- Lines that are written between the last call and a newline are taken back. -/
theorem takenBack_of_newline {w : Text} (ha : ∀ a ∈ sites, a.StandsIn (x ++ '\n' :: w))
    (hplace : ∀ a ∈ sites, a.stop ≤ x.size) (hp : Indent p)
    (hs : (x ++ behind p xs ++ '\n' :: w).size ≤ maxPlace)
    (hnew : new.map (fun w => (w.id, w.siteAt x.size))
      = (layLines p (x.size + 1) xs).map fun q => (q.1.id, q.2)) :
    TakenBack (x ++ '\n' :: w) sites xs (inserted x.size (behind p xs) new) [] p (x.size + 1)
      (cutOut (x ++ ['\n']).size (xs.map (line p))) := by
  have hopened : (x ++ ['\n']).size = x.size + 1 := Text.size_append x ['\n']
  have hnonempty : ∀ l ∈ xs.map (line p), l ≠ [] := List.forall_mem_map.2 fun x _ => line_ne_nil p x
  refine takenBack_of_cutOut (x ++ ['\n']) (xs.map (line p)) w [] ha hs hnonempty hnew ?_ (by simp) ?_
    fun a hm => ?_
  · rw [List.append_assoc, behind, flatMap_behind]
    simp
  · rw [← hopened, deletions_lines (.inr ⟨x, rfl⟩) hp, arranged_cutOut hnonempty]
  · have := hplace a hm
    exact .inl ⟨this, by omega⟩

/-- A single line behind the last call, which ends the text, is taken back with its newline. -/
theorem takenBack_of_single {y : Step} (ha : ∀ a ∈ sites, a.StandsIn x)
    (hplace : ∀ a ∈ sites, a.stop ≤ x.size) (hp : Indent p) (hs : (x ++ behind p [y]).size ≤ maxPlace)
    (hnew : new.map (fun w => (w.id, w.siteAt x.size))
      = (layLines p (x.size + 1) [y]).map fun q => (q.1.id, q.2)) :
    TakenBack x sites [y] (inserted x.size (behind p [y]) new) [] p (x.size + 1)
      (cutOut x.size ['\n' :: p ++ y.action.written.text]) := by
  have hopened : (x ++ ['\n']).size = x.size + 1 := Text.size_append x ['\n']
  rw [← List.append_nil x] at ha
  rw [← List.append_nil (x ++ _)] at hs
  have htaken := takenBack_of_cutOut x ['\n' :: p ++ y.action.written.text] [] []
    ha hs (by simp) hnew ?_ (by simp) ?_ fun a hm => ?_
  · rwa [List.append_nil] at htaken
  · simp [behind]
  · have hdeletion := deletions_lastLine (u := x ++ ['\n']) [] (.inr ⟨x, rfl⟩) (by simp) hp y
    have htext : x ++ ['\n' :: p ++ y.action.written.text].flatten ++ []
        = x ++ ['\n'] ++ ([].map (line p)).flatten ++ (p ++ y.action.written.text) := by simp
    have hstop : x.size + 1 + Text.size (p ++ y.action.written.text)
        = x.size + Text.size ('\n' :: p ++ y.action.written.text) := by
      rw [List.cons_append, Text.size_cons, Text.utf8Size_newline]
      omega
    rw [hopened] at hdeletion
    rw [htext, ← List.nil_append [y], hdeletion]
    show arranged [.deleting ⟨⟨x.size, x.size + 1 + Text.size (p ++ y.action.written.text)⟩, []⟩] = _
    rw [arranged_eq_of_pairwise (List.pairwise_singleton _ _), hstop]
    rfl
  · have := hplace a hm
    exact .inl ⟨this, this⟩

/-- More lines behind the last call, which ends the text, leave the newline before the first of them: the
deletion of the last line is joined with the one before it. -/
theorem takenBack_of_several {zs : List Step} {z y : Step} (ha : ∀ a ∈ sites, a.StandsIn x)
    (hplace : ∀ a ∈ sites, a.stop ≤ x.size) (hp : Indent p)
    (hs : (x ++ behind p (zs ++ [z] ++ [y])).size ≤ maxPlace)
    (hnew : new.map (fun w => (w.id, w.siteAt x.size))
      = (layLines p (x.size + 1) (zs ++ [z] ++ [y])).map fun q => (q.1.id, q.2)) :
    TakenBack x sites (zs ++ [z] ++ [y]) (inserted x.size (behind p (zs ++ [z] ++ [y])) new) ['\n'] p
      (x.size + 1) (cutOut (x ++ ['\n']).size
        (zs.map (line p) ++ [line p z ++ (p ++ y.action.written.text)])) := by
  have hopened : (x ++ ['\n']).size = x.size + 1 := Text.size_append x ['\n']
  rw [← List.append_nil x] at ha
  rw [← List.append_nil (x ++ _)] at hs
  have htaken := takenBack_of_cutOut (x ++ ['\n'])
    (zs.map (line p) ++ [line p z ++ (p ++ y.action.written.text)]) [] ['\n'] ha hs ?_ hnew ?_
    (by simp) ?_ fun a hm => ?_
  · rwa [List.append_nil] at htaken
  · simp [line, or_imp, forall_and]
  · rw [behind, flatMap_last]
    simp
  · have hdeletion := deletions_lastLine (u := x ++ ['\n']) (zs ++ [z]) (.inr ⟨x, rfl⟩) (by simp) hp y
    have htext : x ++ ['\n']
          ++ (zs.map (line p) ++ [line p z ++ (p ++ y.action.written.text)]).flatten ++ []
        = x ++ ['\n'] ++ ((zs ++ [z]).map (line p)).flatten ++ (p ++ y.action.written.text) := by simp
    have hjoined := arranged_cutOut_last (x ++ ['\n']).size (p ++ y.action.written.text)
      (List.forall_mem_map.2 fun x (_ : x ∈ zs) => line_ne_nil p x) (line_ne_nil p z)
    rw [htext, ← hopened, hdeletion, List.map_append]
    exact hjoined
  · have := hplace a hm
    exact .inl ⟨this, by omega⟩

end Behind

/-- Lines that are written behind the last call are taken back; more than one of them leave the newline
before the first, where the call ends the text. -/
theorem exists_takenBack_behind (hsites : steps.map (·.site) = (pre ++ [b]).map some)
    (ha : Anchored t (pre ++ [b])) (hl : b.Lined t) (hne : xs ≠ [])
    (hr : synthesize steps (.insert (pre.length + 1) xs) (.byCount t) = .ok r)
    (hs : (TextEdit.applyAll r.edits t).size ≤ maxPlace) :
    ∃ p place es, TakenBack t (pre ++ [b]) xs r
      (if b.stop = t.size ∧ 2 ≤ xs.length then ['\n'] else []) p place es := by
  have hb := ha.stands b (by simp)
  obtain ⟨u, p, v, ht, hstart, hu, hp, hv⟩ := hl
  have hindex : pre.length + 1 ≤ steps.length := (exists_synthesize_iff.1 ⟨r, hr⟩).1
  have hw : ∀ x ∈ xs, x.action.Writable := (exists_synthesize_iff.1 ⟨r, hr⟩).2
  have hstop : b.stop = (u ++ p ++ b.text).size := by rw [Text.size_append, ← hstart, hb.stop_eq]
  obtain ⟨new, hinsertion, hnew⟩ := exists_insertion_behind hw hu hp (b.text ++ v) hstart
  have hlength : steps.length = pre.length + 1 := by simpa using congrArg List.length hsites
  have hnext : (sitesOf (steps.drop (pre.length + 1))).head? = none := by
    rw [List.drop_of_length_le (by omega)]
    rfl
  have hprevious : (sitesOf (steps.take (pre.length + 1))).getLast? = some b := by
    rw [List.take_of_length_le (by omega), sitesOf_eq hsites, List.getLast?_concat]
  rw [← List.append_assoc, ← ht, ← hnext, ← hprevious] at hinsertion
  obtain rfl : inserted b.stop (behind p xs) new = r :=
    Except.ok.inj ((synthesize_insertion hindex hne hinsertion).symm.trans hr)
  have hplace : ∀ a ∈ pre ++ [b], a.stop ≤ b.stop := by
    intro a hm
    rcases List.mem_append.1 hm with h | h
    · have := (List.pairwise_append.1 ha.ordered).2.2 a h b List.mem_cons_self
      have := hb.start_lt_stop
      omega
    · rw [List.mem_singleton.1 h]
  have hstands := ha.stands
  rw [ht, hstop, applyAll_inserted] at hs
  rw [hstop] at hnew hplace
  rw [ht] at hstands
  rw [hstop, ht]
  rcases hv with rfl | ⟨w, rfl⟩
  · rw [List.append_nil] at *
    rcases List.eq_nil_or_concat xs with rfl | ⟨zs, y, rfl⟩
    · exact absurd rfl hne
    · rw [List.concat_eq_append] at *
      rcases List.eq_nil_or_concat zs with rfl | ⟨zs, z, rfl⟩
      · rw [List.nil_append] at *
        rw [if_neg (by simp)]
        exact ⟨p, _, _, takenBack_of_single hstands hplace hp hs hnew⟩
      · rw [List.concat_eq_append] at *
        rw [if_pos ⟨rfl, by simp⟩]
        exact ⟨p, _, _, takenBack_of_several hstands hplace hp hs hnew⟩
  · rw [if_neg (by rw [Text.size_append _ ('\n' :: w), Text.size_cons, Text.utf8Size_newline]; omega)]
    exact ⟨p, _, _, takenBack_of_newline hstands hplace hp hs hnew⟩

theorem exists_takenBack {sites : List CallSite} {index : Nat} (hsome : sites ≠ [])
    (hsites : steps.map (·.site) = sites.map some) (ha : Anchored t sites)
    (hl : ∀ a ∈ sites, a.Lined t) (hne : xs ≠ [])
    (hr : synthesize steps (.insert index xs) (.byCount t) = .ok r)
    (hs : (TextEdit.applyAll r.edits t).size ≤ maxPlace) :
    ∃ p place es, TakenBack t sites xs r
      (if index = sites.length ∧ 2 ≤ xs.length ∧ sites.getLast?.any (·.stop == t.size)
        then ['\n'] else []) p place es := by
  have hindex : index ≤ sites.length := by
    have hlength : steps.length = sites.length := by simpa using congrArg List.length hsites
    exact hlength ▸ (exists_synthesize_iff.1 ⟨r, hr⟩).1
  rcases Nat.lt_or_eq_of_le hindex with hlt | rfl
  · obtain ⟨pre, b, post, rfl, rfl⟩ : ∃ pre b post, sites = pre ++ b :: post ∧ pre.length = index :=
      ⟨sites.take index, sites[index], sites.drop (index + 1), by simp, by simp [hindex]⟩
    rw [if_neg fun h => Nat.ne_of_lt hlt h.1]
    exact exists_takenBack_before hsites ha hl hne hr hs
  · obtain ⟨pre, b, rfl⟩ := (List.eq_nil_or_concat sites).resolve_left hsome
    rw [List.concat_eq_append] at *
    rw [List.length_append, List.length_singleton] at hr
    obtain ⟨p, place, es, htaken⟩ :=
      exists_takenBack_behind hsites ha (hl b (by simp)) hne hr hs
    refine ⟨p, place, es, ?_⟩
    simpa [and_comm] using htaken

end Rewrite

end RoutineSync
