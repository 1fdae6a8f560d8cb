import RoutineSync.Proofs.Sync.Seams
/-!
Where calls start once a rewriting is made. In a text that says the word only where its calls start,
each call that goes is covered by what is deleted, and the word stands afterwards exactly where the
calls of the new steps stand.
-/
set_option autoImplicit false

namespace RoutineSync

open Text (WordAt)
open TextEdit (Parting Parts)

namespace Rewrite

theorem mergeDeletions.exists_go {last : Part} {ps : List Part}
    (hs : (last :: ps).Pairwise fun p q => p.edit.range.start ≤ q.edit.range.start) {p : Part}
    (hp : p ∈ last :: ps) :
    ∃ q ∈ go last ps, q.edit.range.start ≤ p.edit.range.start ∧ p.edit.range.stop ≤ q.edit.range.stop := by
  induction ps generalizing last p with
  | nil =>
    rw [List.mem_singleton.1 hp]
    exact ⟨last, List.mem_singleton_self _, Nat.le_refl _, Nat.le_refl _⟩
  | cons r ps ih =>
    obtain ⟨hfirst, hrest⟩ := List.pairwise_cons.1 hs
    rw [go_cons]
    split
    · have hsorted : (last.join r :: ps).Pairwise fun p q => p.edit.range.start ≤ q.edit.range.start :=
        .cons (fun q hq => hfirst q (List.mem_cons_of_mem _ hq)) (List.pairwise_cons.1 hrest).2
      obtain ⟨q, hq, hstart, hstop⟩ := ih hsorted List.mem_cons_self
      simp only [Part.join] at hstart hstop
      rcases List.mem_cons.1 hp with rfl | hp
      · exact ⟨q, hq, hstart, by omega⟩
      rcases List.mem_cons.1 hp with rfl | hp
      · have := hfirst p List.mem_cons_self
        exact ⟨q, hq, by omega, by omega⟩
      · exact ih hsorted (List.mem_cons_of_mem _ hp)
    · rcases List.mem_cons.1 hp with rfl | hp
      · exact ⟨p, List.mem_cons_self, Nat.le_refl _, Nat.le_refl _⟩
      · obtain ⟨q, hq, h⟩ := ih hrest hp
        exact ⟨q, List.mem_cons_of_mem _ hq, h⟩

/-- Putting the parts in order loses nothing. -/
theorem exists_covering {parts : List Part} {p : Part} (hp : p ∈ parts) :
    ∃ q ∈ arranged parts, q.edit.range.start ≤ p.edit.range.start ∧
      p.edit.range.stop ≤ q.edit.range.stop := by
  have hs : (parts.mergeSort Part.le).Pairwise fun p q => p.edit.range.start ≤ q.edit.range.start :=
    (sorted_parts parts).imp fun hpq => by omega
  have hp' : p ∈ parts.mergeSort Part.le := List.mem_mergeSort.2 hp
  unfold arranged mergeDeletions
  split
  · rename_i heq
    rw [heq] at hp'
    exact absurd hp' List.not_mem_nil
  · rename_i heq
    rw [heq] at hs hp'
    exact mergeDeletions.exists_go hs hp'

namespace Sketch
variable {t : Text} {gone : List CallSite} {stay : List Staying} {inserted : List Part}

/-- The parts in order: deletions that cut between words, and the patches and insertions as they
are. -/
theorem cases_of_mem_arranged (h : Sketch t gone stay inserted) (hw : ∀ g ∈ gone, WordAt 0 t g.start)
    {p : Part} (hp : p ∈ arranged (sketchParts t gone stay inserted)) :
    (p.edit.text = [] ∧ Clean t p.edit.range) ∨ (∃ x ∈ stay, p.edit ∈ x.edits) ∨ p ∈ inserted := by
  have hspec : ∀ p ∈ arranged (sketchParts t gone stay inserted),
      (p.isDeletion = true ∧ Clean t p.edit.range) ∨
        p.isDeletion = false ∧ p ∈ sketchParts t gone stay inserted := by
    refine forall_arranged (fun p q hp hq _ _ hQp hQq => .inl ⟨hp, ?_⟩) fun p hp => ?_
    · have hnone : ∀ p : Part, p.isDeletion = true → ¬(p.isDeletion = false ∧
          p ∈ sketchParts t gone stay inserted) := fun p hp hnot => by simp [hp] at hnot
      exact (hQp.resolve_right (hnone p hp)).2.join (hQq.resolve_right (hnone q hq)).2
    · cases hd : p.isDeletion with
      | false => exact .inr ⟨rfl, hp⟩
      | true =>
        obtain ⟨g, hg, rfl⟩ := (h.isDeletion_iff hp).1 hd
        exact .inl ⟨rfl, clean_deletion (h.gone_spans g hg) (hw g hg)⟩
  rcases hspec p hp with ⟨hd, hclean⟩ | ⟨hd, hp⟩
  · refine .inl ⟨?_, hclean⟩
    simp only [Part.isDeletion, Bool.and_eq_true, List.isEmpty_iff] at hd
    exact hd.1
  · rcases mem_parts_iff.1 hp with ⟨g, -, rfl⟩ | ⟨x, hx, e, he, rfl⟩ | hi
    · exact absurd (show true = false from hd) (by decide)
    · exact .inr (.inl ⟨x, hx, he⟩)
    · exact .inr (.inr hi)

end Sketch

namespace Synthesis
variable {t : Text} {ss : List Step} {pre post : List CallSite} {rep : List (Option CallSite)}
  {r : Rewrite}

/-- The calls start at the start of a word, those that stay are reworded, and the actions of the new
steps do not say the word that calls start with. -/
structure Worded (s : Synthesis t ss pre rep post r) : Prop where
  marked : Marked t (pre ++ rep.reduceOption ++ post)
  word : ∀ a ∈ pre ++ rep.reduceOption ++ post, WordAt 0 t a.start
  reworded : ∀ p ∈ s.patchings, Staying.Reworded ⟨p.old, p.edits⟩
  silent : ∀ x ∈ ss, x.action.Silent

theorem edits_before (s : Synthesis t ss pre rep post r)
    (ha : Marked t (pre ++ rep.reduceOption ++ post)) : r.edits.Pairwise TextEdit.Before := by
  rw [s.edits_eq, s.parts_eq, List.pairwise_map]
  exact (s.composable ha).pairwise_arranged

theorem next_staying (s : Synthesis t ss pre rep post r) {i : Run × Part} (hi : i ∈ s.insertions)
    {b : CallSite} (hb : nextOf rep post i.1 = some b) :
    ∃ x ∈ staying pre s.patchings post, x.site = b := by
  rcases s.next_of_mem hi with ⟨p, hp, -, hpo⟩ | ⟨-, hpo⟩
  · exact ⟨_, patched_staying hp, Option.some.inj (hpo.symm.trans hb)⟩
  · exact ⟨_, right_staying (List.mem_of_head? (hpo.symm.trans hb)), rfl⟩

theorem mem_edits_of_insertion (s : Synthesis t ss pre rep post r) {i : Run × Part}
    (hi : i ∈ s.insertions) : i.2.edit ∈ r.edits := by
  rw [s.edits_eq, s.parts_eq]
  refine List.mem_map_of_mem (Composable.mem_arranged (Sketch.mem_parts_iff.2 ?_) ?_)
  · exact .inr (.inr (List.mem_map_of_mem hi))
  · simp [Part.isDeletion, s.placed_ne_nil hi]

theorem landEnd_place (s : Synthesis t ss pre rep post r)
    (ha : Marked t (pre ++ rep.reduceOption ++ post))
    (hs : (TextEdit.applyAll r.edits t).size ≤ maxPlace) {i : Run × Part} (hi : i ∈ s.insertions)
    {fs gs : List TextEdit} (hes : r.edits = fs ++ i.2.edit :: gs) :
    (TextEdit.landEnd r.edits (place t pre rep post i.1) : Int)
      = place t pre rep post i.1 + TextEdit.totalDelta fs := by
  have hrange := (s.insertion_spec hi).1
  have hedit : i.2.edit = ⟨⟨place t pre rep post i.1, place t pre rep post i.1⟩, i.2.edit.text⟩ := by
    rw [← hrange]
  have hbefore := s.edits_before ha
  rw [hes, List.pairwise_append, List.pairwise_cons] at hbefore
  obtain ⟨-, ⟨hafter, -⟩, hbefore⟩ := hbefore
  rw [hedit] at hes
  refine (TextEdit.lands_insertion hes (s.carries ha).fit (fun f hf => ?_) (fun g hg => ?_) hs).2.2
  · have := hbefore f hf _ List.mem_cons_self
    rw [TextEdit.Before, hrange] at this
    simp only at this
    omega
  · have := hafter g hg
    rw [TextEdit.Before, hrange] at this
    simp only at this
    omega

/-- The calls stand afterwards where the ones that stay land and where the runs are written. -/
theorem starts_iff (s : Synthesis t ss pre rep post r) (hn : (ss.map (·.id)).Nodup)
    (ha : Marked t (pre ++ rep.reduceOption ++ post))
    (hs : (TextEdit.applyAll r.edits t).size ≤ maxPlace) {n : Nat} :
    (∃ a ∈ pre.map r.remap ++ ss.map (fun x => settled r x.id) ++ post.map r.remap, a.start = n) ↔
      (∃ x ∈ staying pre s.patchings post, TextEdit.landStart r.edits x.site.start = n) ∨
        ∃ i ∈ s.insertions, ∃ w ∈ i.2.placed,
          TextEdit.landEnd r.edits (place t pre rep post i.1) + w.offset = n := by
  simp only [List.mem_append, List.mem_map]
  constructor
  · rintro ⟨_, (⟨a, hm, rfl⟩ | ⟨x, hx, rfl⟩) | ⟨a, hm, rfl⟩, rfl⟩
    · exact .inl ⟨_, left_staying hm, rfl⟩
    · rcases s.patching_or_run hx with ⟨p, hp, rfl⟩ | ⟨i, hi, hxi⟩
      · exact .inl ⟨_, patched_staying hp, (s.settled_patching ha hs hn hp).2.2.2.1.symm⟩
      · have hmem : settled r x.id ∈ i.1.2.1.map fun x => settled r x.id := List.mem_map_of_mem hxi
        rw [(s.settled_run hn ha hs hi).1] at hmem
        obtain ⟨w, hw, heq⟩ := List.mem_map.1 hmem
        exact .inr ⟨i, hi, w, hw, by rw [← heq]; rfl⟩
    · exact .inl ⟨_, right_staying hm, rfl⟩
  · rintro (⟨x, hx, rfl⟩ | ⟨i, hi, w, hw, rfl⟩)
    · rcases mem_staying_iff.1 hx with ⟨a, hm, rfl⟩ | ⟨p, hp, rfl⟩ | ⟨a, hm, rfl⟩
      · exact ⟨_, .inl (.inl ⟨a, hm, rfl⟩), rfl⟩
      · refine ⟨_, .inl (.inr ⟨p.step, ?_, rfl⟩), (s.settled_patching ha hs hn hp).2.2.2.1⟩
        have hmem := List.mem_map_of_mem (f := (·.1)) (s.mem_shares hp)
        rwa [s.steps_eq] at hmem
      · exact ⟨_, .inr ⟨a, hm, rfl⟩, rfl⟩
    · have hmem : w.siteAt (TextEdit.landEnd r.edits (place t pre rep post i.1))
          ∈ i.2.placed.map (·.siteAt (TextEdit.landEnd r.edits (place t pre rep post i.1))) :=
        List.mem_map_of_mem hw
      rw [← (s.settled_run hn ha hs hi).1] at hmem
      obtain ⟨x, hx, heq⟩ := List.mem_map.1 hmem
      exact ⟨_, .inl (.inr ⟨x, s.mem_of_mem_run hi hx, rfl⟩), by rw [heq]; rfl⟩

/-- A call stays, or it goes and an edit covers it. -/
theorem staying_or_covered (s : Synthesis t ss pre rep post r)
    (ha : Marked t (pre ++ rep.reduceOption ++ post)) {a : CallSite}
    (hm : a ∈ pre ++ rep.reduceOption ++ post) :
    (∃ x ∈ staying pre s.patchings post, x.site = a) ∨
      ∃ e ∈ r.edits, e.range.start ≤ a.start ∧ a.start < e.range.stop := by
  simp only [List.mem_append] at hm
  rcases hm with (hm | hm) | hm
  · exact .inl ⟨_, left_staying hm, rfl⟩
  · obtain ⟨k, hk⟩ := List.getElem?_of_mem (List.reduceOption_mem_iff.1 hm)
    by_cases hpair : some k ∈ s.shares.map (·.2)
    · obtain ⟨p, hp, hpk⟩ := List.mem_map.1 hpair
      obtain ⟨q, hq, -, rfl⟩ := s.exists_patching hp hpk
      refine .inl ⟨_, patched_staying hq, ?_⟩
      exact Option.some.inj (Option.some.inj ((s.old_eq q hq).symm.trans hk))
    · have hgone : a ∈ goneSites rep (s.shares.map (·.2)) := mem_goneSites_iff.2 ⟨k, hk, hpair⟩
      have hpart : (⟨⟨deletion (.byCount t) a, []⟩, []⟩ : Part) ∈ sketchParts t
          (goneSites rep (s.shares.map (·.2))) (staying pre s.patchings post) (s.insertions.map (·.2)) :=
        Sketch.mem_parts_iff.2 (.inl ⟨a, hgone, rfl⟩)
      obtain ⟨q, hq, hstart, hstop⟩ := exists_covering hpart
      have hlies := (ha.spans a (by simp [hm])).liesIn
      have hlt := hlies.start_lt_stop
      obtain ⟨fore, left, right, rear, -, hplace, hd, -⟩ := nonempty_removal hlies
      have hpos := hlies.stop_eq
      rw [hd] at hstart hstop
      simp only [Text.size_append] at hstart hstop hplace
      refine .inr ⟨q.edit, ?_, by omega, by omega⟩
      rw [s.edits_eq, s.parts_eq]
      exact List.mem_map_of_mem hq
  · exact .inl ⟨_, right_staying hm, rfl⟩

namespace Worded
variable {s : Synthesis t ss pre rep post r} {x : Staying} {i : Run × Part} {e : TextEdit}

theorem staying_word (h : s.Worded) (hx : x ∈ staying pre s.patchings post) :
    WordAt 0 t x.site.start := by
  rcases mem_staying_iff.1 hx with ⟨a, hm, rfl⟩ | ⟨p, hp, rfl⟩ | ⟨a, hm, rfl⟩
  · exact h.word a (by simp [hm])
  · exact h.word p.old (by simp [s.mem_rep hp])
  · exact h.word a (by simp [hm])

theorem staying_reworded (h : s.Worded) (hx : x ∈ staying pre s.patchings post) : x.Reworded := by
  rcases mem_staying_iff.1 hx with ⟨a, -, rfl⟩ | ⟨p, hp, rfl⟩ | ⟨a, -, rfl⟩
  · exact reworded_nil a
  · exact h.reworded p hp
  · exact reworded_nil a

/-- An edit deletes lines or calls, rewords a call that stays, or writes a run of new ones. -/
theorem cases_of_mem_edits (h : s.Worded) (he : e ∈ r.edits) :
    (e.text = [] ∧ Clean t e.range) ∨ (∃ x ∈ staying pre s.patchings post, e ∈ x.edits) ∨
      ∃ i ∈ s.insertions, e = i.2.edit := by
  rw [s.edits_eq, s.parts_eq] at he
  obtain ⟨p, hp, rfl⟩ := List.mem_map.1 he
  have hgone : ∀ g ∈ goneSites rep (s.shares.map (·.2)), WordAt 0 t g.start := fun g hg => by
    obtain ⟨k, hk, -⟩ := mem_goneSites_iff.1 hg
    exact h.word g (by simp [List.reduceOption_mem_iff.2 (List.mem_of_getElem? hk)])
  rcases (s.sketch_of_marked h.marked).cases_of_mem_arranged hgone hp with hd | hx | hi
  · exact .inl hd
  · exact .inr (.inl hx)
  · obtain ⟨i, hm, heq⟩ := List.mem_map.1 hi
    exact .inr (.inr ⟨i, hm, by rw [← heq]⟩)

theorem opens_insertion (h : s.Worded) (hi : i ∈ s.insertions) :
    i.2.edit.text.endsWord = true ∧ ∀ n, i.2.edit.text.Opens n ↔ ∃ w ∈ i.2.placed, w.offset = n := by
  obtain ⟨-, -, head, lead, trail, hwrite, hblank⟩ := s.insertion_spec hi
  simp only [List.mem_append] at hblank
  have hrun : ∀ x ∈ i.1.2.1, x.action.Silent := fun x hx => h.silent x (s.mem_of_mem_run hi hx)
  have hhead : ∀ c ∈ head, Text.isBlank c = true := fun c hc => hblank c (.inl (.inl hc))
  obtain ⟨hend, new, hnew, hopens⟩ := opens_writeRun hwrite (fun c hc => hblank c (.inl (.inr hc)))
    (fun c hc => hblank c (.inr hc)) (Text.endsWord_of_blank hhead) hrun
  rw [List.nil_append] at hnew
  refine ⟨hend, fun n => (hopens n).trans ?_⟩
  rw [hnew]
  exact or_iff_right (Text.not_opens_of_blank hhead)

/-- Where a run is not written before a call that stays, its text does not go on with a word, or
nothing stands before it on its line. -/
theorem insertion_halts (hi : i ∈ s.insertions) (hnone : nextOf rep post i.1 = none) :
    i.2.edit.text.haltsWord = true ∨ t = [] ∨ t.getLast? = some '\n' := by
  have hwrites := s.writes i hi
  rw [hnone] at hwrites
  exact (haltsWord_of_insertion hwrites (s.insertion_spec hi).2.1).resolve_left (by decide)

/-- Behind the calls that stay nothing is written that starts with a word, unless the text is empty or
ends with a newline. -/
theorem halts_behind (h : s.Worded) {n : Nat} (hn : ∀ x ∈ staying pre s.patchings post, x.site.stop ≤ n)
    (hline : ¬(t = [] ∨ t.getLast? = some '\n')) (he : e ∈ r.edits) (hle : n ≤ e.range.start) :
    e.text.haltsWord = true := by
  rcases h.cases_of_mem_edits he with ⟨htext, -⟩ | ⟨x, hx, hex⟩ | ⟨i, hi, rfl⟩
  · rw [htext]
    rfl
  · obtain ⟨site, hsite⟩ := s.stay_patched h.marked x hx
    have := (s.sketch_of_marked h.marked).patch_spec hx hsite hex
    have := hn x hx
    omega
  · cases hnext : nextOf rep post i.1 with
    | none => exact (insertion_halts hi hnext).resolve_right hline
    | some b =>
      obtain ⟨x, hx, rfl⟩ := s.next_staying hi hnext
      have hlt := ((s.carries h.marked).liesIn hx).start_lt_stop
      have := hn x hx
      rw [(s.insertion_spec hi).1] at hle
      simp only [place_eq_of_next hnext] at hle
      omega

theorem parting (h : s.Worded) (he : e ∈ r.edits) : Parting 0 t r.edits e := by
  have hc := s.carries h.marked
  rcases h.cases_of_mem_edits he with ⟨htext, hclean⟩ | ⟨x, hx, hex⟩ | ⟨i, hi, rfl⟩
  · refine ⟨hclean.start.imp_right ?_, .inl ⟨by rw [htext]; rfl, hclean.stop.imp_right (by omega)⟩⟩
    rintro ⟨hstop, ⟨lead, rest, ht, hstart⟩, hlast⟩
    refine ⟨by omega, ⟨lead, '\n' :: rest, ht, by omega, Text.haltsWord_of_newline rest⟩, fun f hf hle =>
      h.halts_behind (fun x hx => ?_) ?_ hf hle⟩
    · have hlies := hc.liesIn hx
      have hlt := hlies.start_lt_stop
      have hsize := hlies.stop_le_size
      rcases hc.encloses x hx e he with hb | hb | ⟨hin, -⟩
      · omega
      · exact hb
      · have hmem : e ∈ x.edits := hc.inside_eq x hx ▸ List.mem_filter.2 ⟨he, hin⟩
        exact absurd htext ((s.sketch_of_marked h.marked).within x hx e hmem).2
    · rintro (hnil | hnewline)
      · rw [ht] at hnil
        exact absurd hnil (by simp)
      · exact hlast hnewline
  · exact hc.parting hx (h.staying_reworded hx) (h.staying_word hx) hex
  · have hrange := (s.insertion_spec hi).1
    have hend := (h.opens_insertion hi).1
    have hword : WordAt 0 t (place t pre rep post i.1) → Parting 0 t r.edits i.2.edit := fun hw =>
      ⟨.inl (by rwa [hrange]), .inl ⟨hend, .inl (by rwa [hrange])⟩⟩
    rcases s.point hi with ⟨x, hx, hn | hn⟩ | ⟨hnil, hn⟩
    · exact hword (hn ▸ h.staying_word hx)
    · exact hword (hn ▸ (hc.spans x hx).wordAt_stop)
    · by_cases ht : t.endsWord = true
      · exact hword (hn ▸ ⟨t, [], (List.append_nil t).symm, (Nat.zero_add _).symm, ht⟩)
      · have hline : ¬(t = [] ∨ t.getLast? = some '\n') := by
          rintro (rfl | hnewline)
          · exact ht rfl
          · rw [Text.endsWord, hnewline] at ht
            exact ht (by decide)
        rw [hn] at hrange
        have hsize : t.size = 0 + t.size := (Nat.zero_add _).symm
        refine ⟨.inr ⟨by rw [hrange]; exact hsize, ⟨t, [], (List.append_nil t).symm, by rw [hrange]; exact hsize,
          rfl⟩, fun f hf hle => h.halts_behind (fun x hx => ?_) hline hf hle⟩,
          .inl ⟨hend, .inr (by rw [hrange]; exact hsize)⟩⟩
        rw [hnil] at hx
        exact absurd hx List.not_mem_nil

theorem parts (h : s.Worded) : Parts 0 r.edits t :=
  (s.carries h.marked).fit.parts fun _ he => h.parting he

/-- In a text that says the word where its calls start and nowhere else, it stands afterwards where
the calls start then, and nowhere else. -/
theorem opens_iff (h : s.Worded) (hn : (ss.map (·.id)).Nodup)
    (hs : (TextEdit.applyAll r.edits t).size ≤ maxPlace)
    (ht : ∀ n, t.Opens n ↔ ∃ a ∈ pre ++ rep.reduceOption ++ post, a.start = n) {n : Nat} :
    (TextEdit.applyAll r.edits t).Opens n ↔
      ∃ a ∈ pre.map r.remap ++ ss.map (fun x => settled r x.id) ++ post.map r.remap, a.start = n := by
  have hc := s.carries h.marked
  have hsites : ∀ x ∈ staying pre s.patchings post, t.Opens x.site.start := fun x hx => by
    refine (ht _).2 ⟨x.site, ?_, rfl⟩
    rcases mem_staying_iff.1 hx with ⟨a, hm, rfl⟩ | ⟨p, hp, rfl⟩ | ⟨a, hm, rfl⟩
    · simp [hm]
    · simp [s.mem_rep hp]
    · simp [hm]
  rw [s.starts_iff hn h.marked hs]
  constructor
  · intro hopens
    have hle := Nat.le_trans (Nat.le_of_lt hopens.lt_size) hs
    rcases h.parts.of_opens hopens with ⟨m, hm, hspares, hplace⟩ | ⟨fs, e, gs, hes, k, hk, hplace⟩
    · obtain ⟨a, ha, rfl⟩ := (ht m).1 hm
      rw [Nat.zero_add] at hspares hplace
      rcases s.staying_or_covered h.marked ha with ⟨x, hx, rfl⟩ | ⟨e, he, hstart, hstop⟩
      · exact .inl ⟨x, hx, TextEdit.landStart_eq_of_shiftAt hplace hle⟩
      · have := hspares e he
        omega
    · have he : e ∈ r.edits := by rw [hes]; simp
      rcases h.cases_of_mem_edits he with ⟨htext, -⟩ | ⟨x, hx, hex⟩ | ⟨i, hi, rfl⟩
      · rw [htext] at hk
        exact absurd hk Text.not_opens_nil
      · exact .inl ⟨x, hx, hc.landStart_of_written hle hx (h.staying_reworded hx) hes hex hk hplace⟩
      · obtain ⟨w, hw, rfl⟩ := ((h.opens_insertion hi).2 k).1 hk
        have hland := s.landEnd_place h.marked hs hi hes
        rw [(s.insertion_spec hi).1] at hplace
        refine .inr ⟨i, hi, w, hw, ?_⟩
        simp only at hplace
        omega
  · rintro (⟨x, hx, rfl⟩ | ⟨i, hi, w, hw, rfl⟩)
    · exact hc.opens_landStart h.parts hs hx (h.staying_reworded hx) (hsites x hx)
    · obtain ⟨fs, gs, hes⟩ := List.append_of_mem (s.mem_edits_of_insertion hi)
      have hland := s.landEnd_place h.marked hs hi hes
      have hparts := h.parts
      rw [hes] at hparts
      obtain ⟨n, hopens, hplace⟩ := hparts.opens_of_written (((h.opens_insertion hi).2 _).2 ⟨w, hw, rfl⟩)
      rw [← hes] at hopens
      rw [(s.insertion_spec hi).1] at hplace
      simp only at hplace
      rwa [show TextEdit.landEnd r.edits (place t pre rep post i.1) + w.offset = n by omega]

end Worded

end Synthesis

end Rewrite

end RoutineSync
