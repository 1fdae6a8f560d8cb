import RoutineSync.Proofs.Sync.Settled
import RoutineSync.Proofs.Sync.Telling
/-!
The edits of a rewriting cut the text between words: lines are deleted whole, calls are written from
the start of a word to a semicolon, and literals stand apart. So the word that calls start with stands
afterwards where a call has stayed or where one is written.
-/
set_option autoImplicit false

namespace RoutineSync

open Text (WordAt)
open TextEdit (Parting Parts HaltsAt shiftAt)

namespace Text

theorem endsWord_of_blank {t : Text} (h : ∀ c ∈ t, isBlank c = true) : t.endsWord = true := by
  cases hl : t.getLast? with
  | none => rw [endsWord, hl]; rfl
  | some c => rw [endsWord, hl, Option.any_some, isWord_of_isBlank (h c (List.mem_of_getLast? hl))]; rfl

theorem haltsWord_of_newline (t : Text) : haltsWord ('\n' :: t) = true := by
  rw [haltsWord, List.head?_cons, Option.any_some]
  decide

theorem wordAt_of_append {u v : Text} (h : u.endsWord = true) : WordAt 0 (u ++ v) u.size :=
  ⟨u, v, rfl, (Nat.zero_add _).symm, h⟩

theorem WordAt.le_size {t : Text} {n : Nat} (h : WordAt 0 t n) : n ≤ t.size := by
  obtain ⟨lead, rest, rfl, rfl, -⟩ := h
  rw [size_append]
  omega

theorem endsWord_of_lineStart {t : Text} (h : (Source.byCount t).lineStart t.size = t.size) :
    t = [] ∨ t.getLast? = some '\n' := by
  obtain ⟨a, b, rfl, hb, ha⟩ := t.exists_lastLine
  have hstart := Source.lineStart_byCount [] hb ha
  rw [List.append_nil] at hstart
  rw [hstart, size_append] at h
  obtain rfl : b = [] := size_eq_zero_iff.1 (by omega)
  rw [List.append_nil]
  exact ha.imp_right fun ⟨c, hc⟩ => by rw [hc, List.getLast?_concat]

end Text

theorem CallSite.SpansIn.wordAt_stop {s : CallSite} {t : Text} (h : s.SpansIn t) : WordAt 0 t s.stop := by
  obtain ⟨u, v, ht, hu⟩ := h.stands
  refine ⟨u ++ s.text, v, ht, ?_, ?_⟩
  · rw [h.stop_eq, Text.size_append, hu, Nat.zero_add]
  · rw [Text.endsWord_append h.liesIn.ne_nil]
    exact Text.endsWord_of_closes h.closes

namespace Rewrite

/-- A range that is cut out between words. Behind a word the end of the text can be cut out, with the
newline before it, where the last line is not empty. -/
structure Clean (t : Text) (d : ByteRange) : Prop where
  start : WordAt 0 t d.start ∨ (d.stop = t.size ∧
    (∃ lead rest : Text, t = lead ++ '\n' :: rest ∧ d.start = lead.size) ∧ t.getLast? ≠ some '\n')
  stop : WordAt 0 t d.stop ∨ d.stop = t.size

theorem Clean.stop_le {t : Text} {d : ByteRange} (h : Clean t d) : d.stop ≤ t.size :=
  h.stop.elim (·.le_size) Nat.le_of_eq

theorem Clean.join {t : Text} {d e : ByteRange} (hd : Clean t d) (he : Clean t e) :
    Clean t ⟨d.start, max d.stop e.stop⟩ where
  start := hd.start.imp_right fun ⟨hstop, h⟩ => ⟨by
    have := he.stop_le
    show max d.stop e.stop = t.size
    omega, h⟩
  stop := by
    show WordAt 0 t (max d.stop e.stop) ∨ max d.stop e.stop = t.size
    rcases Nat.le_total d.stop e.stop with hle | hle
    · rw [Nat.max_eq_right hle]
      exact he.stop
    · rw [Nat.max_eq_left hle]
      exact hd.stop

theorem clean_deletion {t : Text} {g : CallSite} (h : g.SpansIn t) (hw : WordAt 0 t g.start) :
    Clean t (deletion (.byCount t) g) := by
  obtain ⟨fore, left, right, rear, ht, hstart, hd, -, -, hlines⟩ := nonempty_removal h.liesIn
  have hend := Text.endsWord_of_closes h.closes
  have hnewline : ∀ x : Text, Text.endsWord (x ++ ['\n']) = true := fun x => by
    rw [Text.endsWord_append (List.cons_ne_nil _ _)]
    decide
  have hfore : ∀ {x : Text}, (x = [] ∨ ∃ y : Text, x = y ++ ['\n']) → x.endsWord = true := by
    rintro x (rfl | ⟨y, rfl⟩)
    · rfl
    · exact hnewline y
  rw [hd]
  rcases hlines with ⟨rfl, rfl⟩ | ⟨hline, -, x, rfl, -⟩ | ⟨rfl, hright, hline⟩
  · refine ⟨.inl ?_, .inl ?_⟩
    · rwa [← show g.start = fore.size by rw [hstart, List.append_nil]]
    · rw [ht]
      refine Text.wordAt_of_append ?_
      rw [List.append_nil, Text.endsWord_append h.liesIn.ne_nil]
      exact hend
  · refine ⟨.inl ?_, .inl ?_⟩
    · have := Text.wordAt_of_append (v := left ++ (g.text ++ (x ++ ['\n'] ++ rear))) (hfore hline)
      rwa [ht, show fore ++ left ++ g.text ++ (x ++ ['\n']) ++ rear
        = fore ++ (left ++ (g.text ++ (x ++ ['\n'] ++ rear))) by simp only [List.append_assoc]]
    · rw [ht]
      refine Text.wordAt_of_append ?_
      rw [← List.append_assoc]
      exact hnewline _
  · have hstop : (fore ++ left ++ g.text ++ right).size = t.size := by rw [ht, List.append_nil]
    refine ⟨?_, .inr hstop⟩
    rcases hline with ⟨rfl, -⟩ | ⟨x, rfl, -⟩
    · exact .inl ⟨[], t, rfl, rfl, rfl⟩
    · refine .inr ⟨hstop, ⟨fore, x ++ (g.text ++ right), by simp [ht], rfl⟩, ?_⟩
      rw [ht, List.append_nil]
      cases hlast : right.getLast? with
      | none =>
        rw [List.getLast?_eq_none_iff.1 hlast, List.append_nil,
          List.getLast?_append_of_ne_nil _ h.liesIn.ne_nil, h.closes]
        decide
      | some c =>
        rw [List.getLast?_append, hlast, Option.some_or]
        rintro ⟨rfl⟩
        exact hright (List.mem_of_getLast? hlast)

/-- Calls that are written one after another, with blanks around them, start where they were put, and
the word stands nowhere else. -/
theorem opens_writeRun {lead trail text text' : Text} {ss : List Step} {placed placed' : List Placed}
    (h : writeRun lead trail ss text placed = .ok (text', placed'))
    (hlead : ∀ c ∈ lead, Text.isBlank c = true) (htrail : ∀ c ∈ trail, Text.isBlank c = true)
    (htext : text.endsWord = true) (hs : ∀ x ∈ ss, x.action.Silent) :
    text'.endsWord = true ∧ ∃ new, placed' = placed ++ new ∧
      ∀ n, text'.Opens n ↔ text.Opens n ∨ ∃ w ∈ new, w.offset = n := by
  induction ss generalizing text placed with
  | nil =>
    simp only [writeRun, Result.pure_eq_ok_iff, Prod.mk.injEq] at h
    obtain ⟨rfl, rfl⟩ := h
    exact ⟨htext, [], (List.append_nil _).symm, by simp⟩
  | cons s ss ih =>
    rw [writeRun] at h
    obtain ⟨call, hcall, h⟩ := Result.bind_eq_ok_iff.1 h
    obtain ⟨hsilent, hs⟩ := List.forall_mem_cons.1 hs
    have hclosed := Text.endsWord_of_closes (Action.proper_of_generate hcall).closes
    have hbefore : (text ++ lead).endsWord = true :=
      Text.endsWord_append_of htext (Text.endsWord_of_blank hlead)
    have hcalled := Text.endsWord_append_of hbefore hclosed
    have hbehind := Text.endsWord_append_of hcalled (Text.endsWord_of_blank htrail)
    obtain ⟨hend, new, rfl, hopens⟩ := ih h hbehind hs
    refine ⟨hend, ⟨s.id, (text ++ lead).size, call⟩ :: new, by simp, fun n => ?_⟩
    obtain ⟨-, rfl⟩ := Action.generate_eq_ok_iff.1 hcall
    rw [hopens, Text.opens_append_iff (.inl hcalled), Text.opens_append_iff (.inl hbefore),
      Text.opens_append_iff (.inl htext)]
    simp only [Text.not_opens_of_blank hlead, Text.not_opens_of_blank htrail, and_false, exists_false,
      or_false, Action.opens_written_iff hsilent, exists_eq_right, Nat.add_zero, List.exists_mem_cons_iff,
      or_assoc, eq_comm (a := n)]

/-- What is written is set apart from what stands before it, except before a call that stays and behind
a line. -/
theorem haltsWord_of_insertion {t : Text} {run : List Step} {next previous : Option CallSite} {p : Part}
    (h : insertion (.byCount t) run next previous = .ok p) (hrun : run ≠ []) :
    next.isSome = true ∨ p.edit.text.haltsWord = true ∨ t = [] ∨ t.getLast? = some '\n' := by
  have written : ∀ {place : Nat} {head lead trail : Text},
      (writeRun lead trail run head []).map
        (fun x => (⟨⟨⟨place, place⟩, x.1⟩, x.2⟩ : Part)) = .ok p →
      (∃ x, head ++ lead = '\n' :: x) → p.edit.text.haltsWord = true := by
    rintro place head lead trail h ⟨x, hx⟩
    obtain ⟨⟨text, placed⟩, hwrite, rfl⟩ := Result.map_eq_ok_iff.1 h
    obtain ⟨new, -, hgen, htext, -⟩ := writeRun_eq_ok hwrite
    cases new with
    | nil => exact absurd (List.map_eq_nil_iff.1 hgen.symm) hrun
    | cons w new =>
      show text.haltsWord = true
      rw [htext, List.flatMap_cons]
      simp only [← List.append_assoc, hx, List.cons_append]
      exact Text.haltsWord_of_newline _
  rw [insertion_of_frame rfl] at h
  cases next with
  | some next => exact .inl rfl
  | none =>
    cases previous with
    | some previous => exact .inr (.inl (written h ⟨_, rfl⟩))
    | none =>
      by_cases hline : (Source.byCount t).lineStart t.size = t.size
      · exact .inr (.inr (Text.endsWord_of_lineStart hline))
      · refine .inr (.inl (written h ⟨[], ?_⟩))
        show (if (Source.byCount t).lineStart t.size ≠ t.size then ['\n'] else []) ++ [] = _
        rw [if_pos hline]
        rfl

/-- The patches of a call that stays rewrite literals, or they write the call anew. -/
def Staying.Reworded (x : Staying) : Prop :=
  (∀ e ∈ x.edits, Nonempty (x.site.Rewording e)) ∨
    ∃ text : Text, x.edits = [⟨x.site.range, text⟩] ∧ text.endsWord = true ∧ ∀ n, text.Opens n ↔ n = 0

theorem reworded_nil (s : CallSite) : Staying.Reworded ⟨s, []⟩ :=
  .inl fun _ he => absurd he List.not_mem_nil

namespace Carries
variable {t : Text} {es : List TextEdit} {stay : List Staying} {x : Staying} {e : TextEdit}

theorem mem_edits (h : Carries t es stay) (hx : x ∈ stay) (he : e ∈ x.edits) : e ∈ es :=
  (List.mem_filter.1 (h.inside_eq x hx ▸ he)).1

theorem parting (h : Carries t es stay) (hx : x ∈ stay) (hr : x.Reworded)
    (hw : WordAt 0 t x.site.start) (he : e ∈ x.edits) : Parting 0 t es e := by
  have hspans := h.spans x hx
  have hstop := hspans.stop_eq
  obtain ⟨u, v, ht, hu⟩ := hspans.stands
  rcases hr with hr | ⟨text, hedits, hend, -⟩
  · obtain ⟨w⟩ := hr e he
    have hsize := congrArg Text.size w.text_eq
    have hpos := Text.size_pos_of_ne_nil w.literal_ne
    have hbehind := Text.size_pos_of_ne_nil (List.cons_ne_nil w.behind w.rest)
    simp only [Text.size_append] at hsize
    refine ⟨.inl ⟨u ++ w.lead, w.literal ++ w.behind :: (w.rest ++ v), ?_, ?_, ?_⟩,
      .inr ⟨⟨u ++ w.lead ++ w.literal, w.behind, w.rest ++ v, ?_, ?_, w.isBehind.not_word⟩, fun f hf heq => ?_⟩⟩
    · rw [ht, w.text_eq]
      simp
    · rw [w.range_eq, Text.size_append, hu, Nat.zero_add]
    · rw [Text.endsWord_append w.lead_ne]
      exact w.lead_endsWord
    · rw [ht, w.text_eq]
      simp
    · rw [w.range_eq]
      simp only [Text.size_append]
      omega
    · have hle := h.fit.start_le f hf
      rw [w.range_eq] at heq
      simp only at heq
      rcases h.encloses x hx f hf with hb | hb | ⟨hin, -⟩
      · omega
      · omega
      · -- no literal starts where another one ends
        obtain ⟨w'⟩ := hr f (h.inside_eq x hx ▸ List.mem_filter.2 ⟨hf, hin⟩)
        rw [w'.range_eq] at heq
        have heq' : (w.lead ++ w.literal) ++ w.behind :: w.rest
            = w'.lead ++ (w'.literal ++ w'.behind :: w'.rest) := by
          rw [List.append_assoc, ← w.text_eq, w'.text_eq]
        obtain ⟨-, hrest⟩ := Text.append_inj_of_size heq' (by
          simp only [Text.size_append] at heq ⊢
          omega)
        obtain ⟨d, y, hd⟩ := List.exists_cons_of_ne_nil w'.literal_ne
        rw [hd] at hrest
        obtain rfl := (List.cons.inj hrest).1
        exact w'.not_behind w.behind (by rw [hd]; rfl) w.isBehind
  · rw [hedits, List.mem_singleton] at he
    subst he
    exact ⟨.inl hw, .inl ⟨hend, .inl hspans.wordAt_stop⟩⟩

end Carries

end Rewrite

namespace TextEdit
variable {es fs gs : List TextEdit} {e : TextEdit} {t : Text} {m n p : Nat}

theorem landStart_eq_of_shiftAt (h : (n : Int) = m + shiftAt es m) (hn : n ≤ maxPlace) :
    landStart es m = n := by
  show movePlace m (shiftAt es m) = n
  rw [movePlace]
  omega

/-- What stands before an edit that takes something out is moved by the edits before it. -/
theorem shiftAt_start (h : Fit p (fs ++ e :: gs) t) (he : e.range.start < e.range.stop) :
    shiftAt (fs ++ e :: gs) e.range.start = totalDelta fs := by
  have hp := h.pairwise
  rw [List.pairwise_append, List.pairwise_cons] at hp
  obtain ⟨-, ⟨hgs, -⟩, hfs⟩ := hp
  have hleft : fs.filter (countsAtStart e.range.start) = fs :=
    List.filter_eq_self.2 fun f hf => countsAtStart_iff.2 (hfs f hf e List.mem_cons_self)
  have hright : (e :: gs).filter (countsAtStart e.range.start) = [] := by
    rw [List.filter_eq_nil_iff]
    intro g hg
    rw [countsAtStart_iff]
    rcases List.mem_cons.1 hg with rfl | hg'
    · omega
    · have := hgs g hg'
      have := h.start_le g (List.mem_append_right _ hg)
      omega
  rw [shiftAt, List.filter_append, hleft, hright, List.append_nil]

end TextEdit

namespace Rewrite.Carries
variable {t : Text} {es : List TextEdit} {stay : List Staying} {x : Staying} {n : Nat}

theorem opens_landStart (h : Carries t es stay) (hparts : Parts 0 es t)
    (hs : (TextEdit.applyAll es t).size ≤ maxPlace) (hx : x ∈ stay) (hr : x.Reworded)
    (ho : t.Opens x.site.start) : (TextEdit.applyAll es t).Opens (TextEdit.landStart es x.site.start) := by
  have hlt := (h.liesIn hx).start_lt_stop
  have hland : ∀ {n : Nat}, (TextEdit.applyAll es t).Opens n → (n : Int) = x.site.start + shiftAt es x.site.start →
      (TextEdit.applyAll es t).Opens (TextEdit.landStart es x.site.start) := fun hn hplace => by
    rwa [TextEdit.landStart_eq_of_shiftAt hplace (Nat.le_trans (Nat.le_of_lt hn.lt_size) hs)]
  rcases hr with hr | ⟨text, hedits, -, hopens⟩
  · have hspares : TextEdit.Spares es (0 + x.site.start) := fun f hf => by
      rcases h.encloses x hx f hf with hb | hb | ⟨hin, -⟩
      · omega
      · omega
      · obtain ⟨w⟩ := hr f (h.inside_eq x hx ▸ List.mem_filter.2 ⟨hf, hin⟩)
        have := Text.size_pos_of_ne_nil w.lead_ne
        rw [w.range_eq]
        simp only
        omega
    obtain ⟨n, hn, hplace⟩ := hparts.opens_of_spares ho hspares
    rw [Nat.zero_add] at hplace
    exact hland hn hplace
  · obtain ⟨fs, gs, hes⟩ := List.append_of_mem
      (h.mem_edits hx (hedits ▸ List.mem_singleton_self _) : (⟨x.site.range, text⟩ : TextEdit) ∈ es)
    have hfit := h.fit
    rw [hes] at hparts hfit
    obtain ⟨n, hn, hplace⟩ := hparts.opens_of_written ((hopens 0).2 rfl)
    refine hland (n := n) (by rw [hes]; exact hn) ?_
    have hshift := TextEdit.shiftAt_start hfit hlt
    rw [hes]
    rw [show (⟨x.site.range, text⟩ : TextEdit).range.start = x.site.start from rfl] at hshift hplace
    omega

theorem landStart_of_written (h : Carries t es stay) (hs : n ≤ maxPlace) (hx : x ∈ stay)
    (hr : x.Reworded) {fs gs : List TextEdit} {e : TextEdit} (hes : es = fs ++ e :: gs)
    (he : e ∈ x.edits) {k : Nat} (hk : e.text.Opens k)
    (hplace : ((0 : Nat) + n : Int) = e.range.start + TextEdit.totalDelta fs + k) :
    TextEdit.landStart es x.site.start = n := by
  have hlt := (h.liesIn hx).start_lt_stop
  rcases hr with hr | ⟨text, hedits, -, hopens⟩
  · obtain ⟨w⟩ := hr e he
    exact absurd hk (w.silent k)
  · rw [hedits, List.mem_singleton] at he
    subst he
    obtain rfl := (hopens k).1 hk
    have hfit := h.fit
    rw [hes] at hfit
    have hshift := TextEdit.shiftAt_start hfit hlt
    refine TextEdit.landStart_eq_of_shiftAt ?_ hs
    rw [hes]
    rw [show (⟨x.site.range, text⟩ : TextEdit).range.start = x.site.start from rfl] at hshift hplace
    omega

/-- Where calls that stay are patched and nothing else is edited, the word stands afterwards where they
land. -/
theorem opens_iff (h : Carries t es stay) (hes : ∀ e ∈ es, ∃ x ∈ stay, e ∈ x.edits)
    (hr : ∀ x ∈ stay, x.Reworded) (hs : (TextEdit.applyAll es t).size ≤ maxPlace)
    (ht : ∀ m, t.Opens m ↔ ∃ x ∈ stay, x.site.start = m) :
    (TextEdit.applyAll es t).Opens n ↔ ∃ x ∈ stay, TextEdit.landStart es x.site.start = n := by
  have hopens : ∀ x ∈ stay, t.Opens x.site.start := fun x hx => (ht _).2 ⟨x, hx, rfl⟩
  have hparts : Parts 0 es t := h.fit.parts fun e he => by
    obtain ⟨x, hx, hex⟩ := hes e he
    exact h.parting hx (hr x hx) (hopens x hx).wordAt hex
  constructor
  · intro hn
    have hle := Nat.le_trans (Nat.le_of_lt hn.lt_size) hs
    rcases hparts.of_opens hn with ⟨m, hm, -, hplace⟩ | ⟨fs, e, gs, heq, k, hk, hplace⟩
    · obtain ⟨x, hx, rfl⟩ := (ht m).1 hm
      rw [Nat.zero_add] at hplace
      exact ⟨x, hx, TextEdit.landStart_eq_of_shiftAt hplace hle⟩
    · obtain ⟨x, hx, hex⟩ := hes e (by rw [heq]; simp)
      exact ⟨x, hx, h.landStart_of_written hle hx (hr x hx) heq hex hk hplace⟩
  · rintro ⟨x, hx, rfl⟩
    exact h.opens_landStart hparts hs hx (hr x hx) (hopens x hx)

end Rewrite.Carries

end RoutineSync
