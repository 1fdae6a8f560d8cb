import RoutineSync.Proofs.Sync.Synthesis
/-!
Where the calls stand once the edits are made: those that stay where their ends land, those that are
written within the text of their insertion. All of them stand one behind the other again.
-/
set_option autoImplicit false

namespace RoutineSync.Rewrite

theorem placedSites_nil (shift : Int) : placedSites shift [] = [] := rfl

theorem placedSites_cons (shift : Int) (p : Part) (ps : List Part) :
    placedSites shift (p :: ps)
      = p.placed.map (fun w => (w.id, w.siteAt (movePlace p.edit.range.start shift)))
        ++ placedSites (shift + p.edit.delta) ps := rfl

theorem keys_placedSites (shift : Int) (parts : List Part) :
    (placedSites shift parts).map (·.1) = parts.flatMap fun p => p.placed.map (·.id) := by
  induction parts generalizing shift with
  | nil => rfl
  | cons p parts ih => simp [placedSites_cons, ih, Function.comp_def]

theorem mem_placedSites {p : Part} {w : Placed} (hw : w ∈ p.placed) (shift : Int)
    (ps qs : List Part) :
    (w.id, w.siteAt (movePlace p.edit.range.start
        (shift + TextEdit.totalDelta (ps.map (·.edit))))) ∈ placedSites shift (ps ++ p :: qs) := by
  induction ps generalizing shift with
  | nil =>
    rw [List.nil_append, placedSites_cons]
    refine List.mem_append_left _ (List.mem_map.2 ⟨w, hw, ?_⟩)
    simp [Placed.siteAt, TextEdit.totalDelta]
  | cons q ps ih =>
    rw [List.cons_append, placedSites_cons]
    refine List.mem_append_right _ ?_
    have := ih (shift + q.edit.delta)
    rwa [Int.add_assoc] at this

theorem siteOf?_eq_some {r : Rewrite} {id : ActionId} {a : CallSite}
    (hn : (r.sites.map (·.1)).Nodup) (h : (id, a) ∈ r.sites) : r.siteOf? id = some a := by
  unfold siteOf?
  generalize r.sites = sites at *
  induction sites with
  | nil => simp at h
  | cons e sites ih =>
    rw [List.map_cons, List.nodup_cons] at hn
    rcases List.mem_cons.1 h with rfl | h
    · simp
    · have hne : (e.1 == id) = false := by
        rw [beq_eq_false_iff_ne]
        rintro rfl
        exact hn.1 (List.mem_map.2 ⟨_, h, rfl⟩)
      rw [List.find?_cons, hne]
      exact ih hn.2 h

theorem siteOf?_eq_none {r : Rewrite} {id : ActionId} (h : id ∉ r.sites.map (·.1)) :
    r.siteOf? id = none := by
  rw [siteOf?, Option.map_eq_none_iff, List.find?_eq_none]
  intro k hk heq
  exact h (List.mem_map.2 ⟨k, hk, beq_iff_eq.1 heq⟩)

theorem flatMap_filter {α β : Type} {q : α → Bool} {g : α → List β} {l : List α}
    (h : ∀ x ∈ l, q x = false → g x = []) : (l.filter q).flatMap g = l.flatMap g := by
  induction l with
  | nil => rfl
  | cons x l ih =>
    have ih := ih fun y hy => h y (List.mem_cons_of_mem _ hy)
    rw [List.filter_cons]
    split
    · rw [List.flatMap_cons, List.flatMap_cons, ih]
    · rename_i hx
      rw [List.flatMap_cons, ih, h x List.mem_cons_self (by simpa using hx), List.nil_append]

namespace Synthesis
variable {t : Text} {ss : List Step} {pre post : List CallSite} {rep : List (Option CallSite)}
  {r : Rewrite}

theorem keys_parts (s : Synthesis t ss pre rep post r) :
    (s.parts.flatMap fun p => p.placed.map (·.id)).Perm
      (s.insertions.flatMap fun i => i.1.2.1.map (·.id)) := by
  have hdel : ∀ p : Part, (!p.isDeletion) = false → p.placed.map (·.id) = [] := by
    intro p hp
    simp only [Part.isDeletion, Bool.not_eq_false', Bool.and_eq_true, List.isEmpty_iff] at hp
    simp [hp.2]
  have hall : (sketchParts t (goneSites rep (s.shares.map (·.2))) (staying pre s.patchings post)
      (s.insertions.map (·.2))).flatMap (fun p => p.placed.map (·.id))
      = s.insertions.flatMap fun i => i.1.2.1.map (·.id) := by
    have hnil : ∀ (l : List CallSite), l.flatMap (fun _ => ([] : List ActionId)) = [] :=
      fun l => List.flatMap_eq_nil_iff.2 fun _ _ => rfl
    have hnil' : ∀ (l : List Staying),
        (l.flatMap fun x => x.edits.flatMap fun _ => ([] : List ActionId)) = [] :=
      fun l => List.flatMap_eq_nil_iff.2 fun _ _ => List.flatMap_eq_nil_iff.2 fun _ _ => rfl
    simp only [sketchParts, List.flatMap_append, List.flatMap_map, List.flatMap_assoc, List.map_nil,
      hnil, hnil', List.nil_append]
    rw [List.flatMap_def, List.flatMap_def]
    exact congrArg List.flatten (List.map_congr_left fun i hi => s.placed_ids hi)
  rw [← hall, ← flatMap_filter (q := fun p => !p.isDeletion) fun p _ => hdel p, s.parts_eq,
    Composable.filter_arranged, flatMap_filter fun p _ => hdel p]
  exact (List.mergeSort_perm _ _).flatMap_right _

theorem keys_perm (s : Synthesis t ss pre rep post r) :
    (r.sites.map (·.1)).Perm (ss.map (·.id)) := by
  have hkept : (s.patchings.map fun p => p.step.id)
      = (s.shares.filter fun p => p.2.isSome).map (·.1.id) := by
    rw [← s.shares_eq, List.map_map]
    rfl
  have hruns : (s.insertions.flatMap fun i => i.1.2.1.map (·.id))
      = (s.shares.filter fun p => !p.2.isSome).map (·.1.id) := by
    have h1 : (s.insertions.flatMap fun i => i.1.2.1.map (·.id))
        = ((s.insertions.map (·.1)).flatMap (·.2.1)).map (·.id) := by
      simp [List.map_flatMap, List.flatMap_map]
    rw [h1, s.runs_eq, flatMap_runs]
    simp
  have hsteps : ss.map (·.id) = s.shares.map (·.1.id) := by
    have := congrArg (List.map (·.id)) s.steps_eq
    rw [← this, List.map_map]
    rfl
  rw [s.sites_eq, List.map_append, keys_placedSites, hsteps, List.map_map]
  refine (List.Perm.append_right _ s.keys_parts).trans ?_
  have : (s.patchings.map ((fun x => x.1) ∘ fun p : Patching =>
      (p.step.id, ({ p.site with
        start := TextEdit.landStart r.edits p.site.start
        stop := TextEdit.landStart r.edits p.site.start + p.site.text.size } : CallSite))))
      = (s.shares.filter fun p => p.2.isSome).map (·.1.id) := hkept
  rw [hruns, this, ← List.map_append]
  exact (List.perm_append_comm.trans (List.filter_append_perm _ _)).map _

/-- The edit of an insertion moves what it writes to where its place lands. -/
theorem lands_insertion (s : Synthesis t ss pre rep post r)
    (ha : Marked t (pre ++ rep.reduceOption ++ post))
    (hs : (TextEdit.applyAll r.edits t).size ≤ maxPlace) {i : Run × Part} (hi : i ∈ s.insertions) :
    let n := place t pre rep post i.1
    (TextEdit.applyAll r.edits t).StandsAt (TextEdit.landEnd r.edits n) i.2.edit.text ∧
      TextEdit.landEnd r.edits n + i.2.edit.text.size = TextEdit.landStart r.edits n ∧
      ∀ w ∈ i.2.placed, (w.id, w.siteAt (TextEdit.landEnd r.edits n)) ∈ r.sites := by
  intro n
  obtain ⟨hrange, -⟩ := s.insertion_spec hi
  have hdel : i.2.isDeletion = false := by simp [Part.isDeletion, s.placed_ne_nil hi]
  have hmem : i.2 ∈ s.parts := by
    rw [s.parts_eq]
    refine Composable.mem_arranged (Sketch.mem_parts_iff.2 ?_) hdel
    exact .inr (.inr (List.mem_map.2 ⟨i, hi, rfl⟩))
  obtain ⟨ps, qs, hparts⟩ := List.append_of_mem hmem
  have hedit : i.2.edit = ⟨⟨n, n⟩, i.2.edit.text⟩ := by
    rw [← show i.2.edit.range = ⟨n, n⟩ from hrange]
  have hes : r.edits = ps.map (·.edit) ++ ⟨⟨n, n⟩, i.2.edit.text⟩ :: qs.map (·.edit) := by
    rw [s.edits_eq, hparts, List.map_append, List.map_cons, ← hedit]
  have hbefore := (s.composable ha).pairwise_arranged
  rw [← s.parts_eq, hparts, List.pairwise_append, List.pairwise_cons] at hbefore
  obtain ⟨-, ⟨hafter, -⟩, hbefore⟩ := hbefore
  obtain ⟨h1, h2, h3⟩ := TextEdit.lands_insertion hes (s.carries ha).fit
    (fun f hf => by
      obtain ⟨p, hp, rfl⟩ := List.mem_map.1 hf
      have := hbefore p hp i.2 List.mem_cons_self
      simp only [TextEdit.Before, hrange] at this
      omega)
    (fun g hg => by
      obtain ⟨p, hp, rfl⟩ := List.mem_map.1 hg
      have := hafter p hp
      simp only [TextEdit.Before, hrange] at this
      omega) hs
  refine ⟨h1, h2, fun w hw => ?_⟩
  have hplace : movePlace i.2.edit.range.start (0 + TextEdit.totalDelta (ps.map (·.edit)))
      = TextEdit.landEnd r.edits n := by
    have hle := h1.le_size
    have hstart : i.2.edit.range.start = n := by rw [hrange]
    rw [hstart]
    simp only [movePlace]
    omega
  rw [s.sites_eq, hparts]
  refine List.mem_append_left _ ?_
  have := mem_placedSites hw 0 ps qs
  rwa [hplace] at this

theorem run_stands (s : Synthesis t ss pre rep post r)
    (ha : Marked t (pre ++ rep.reduceOption ++ post))
    (hs : (TextEdit.applyAll r.edits t).size ≤ maxPlace) {i : Run × Part} (hi : i ∈ s.insertions) :
    let n := place t pre rep post i.1
    let sites := i.2.placed.map (·.siteAt (TextEdit.landEnd r.edits n))
    (∀ a ∈ sites, a.LiesIn (TextEdit.applyAll r.edits t) ∧
        CallText.Proper ⟨a.text, a.params⟩ ∧
        TextEdit.landEnd r.edits n ≤ a.start ∧ a.stop ≤ TextEdit.landStart r.edits n) ∧
      sites.Pairwise fun a b => a.stop ≤ b.start := by
  intro n sites
  obtain ⟨-, -, head, lead, trail, hw, -⟩ := s.insertion_spec hi
  obtain ⟨new, hnew, hgen, -, hstands, hpair⟩ := writeRun_eq_ok hw
  rw [List.nil_append] at hnew
  subst hnew
  obtain ⟨h1, h2, -⟩ := s.lands_insertion ha hs hi
  rw [show place t pre rep post i.1 = n from rfl] at h2
  constructor
  · intro a hm
    obtain ⟨w, hw, rfl⟩ := List.mem_map.1 hm
    obtain ⟨hst, -⟩ := hstands w hw
    have hle := hst.le_size
    have hmem : (w.id, (.ok w.call : Except WriteError CallText))
        ∈ i.1.2.1.map fun s => (s.id, s.action.generate) := hgen ▸ List.mem_map.2 ⟨w, hw, rfl⟩
    obtain ⟨x, -, hx⟩ := List.mem_map.1 hmem
    have hproper : w.call.Proper := Action.proper_of_generate (congrArg Prod.snd hx)
    refine ⟨⟨h1.trans hst, rfl, hproper.ne_nil⟩, hproper, Nat.le_add_right _ _, ?_⟩
    simp only [Placed.siteAt]
    omega
  · rw [List.pairwise_map]
    refine hpair.imp fun {w v} hwv => ?_
    simp only [Placed.siteAt]
    omega

theorem place_clear (s : Synthesis t ss pre rep post r)
    (ha : Marked t (pre ++ rep.reduceOption ++ post))
    {i : Run × Part} (hi : i ∈ s.insertions) :
    t.isPlace (place t pre rep post i.1) = true ∧
      TextEdit.Clear r.edits (place t pre rep post i.1) := by
  have hc := s.carries ha
  rcases s.point hi with ⟨x, hx, hn | hn⟩ | ⟨-, hn⟩ <;> rw [hn]
  · exact ⟨hc.isPlace_start hx, hc.clear_start hx⟩
  · exact ⟨hc.isPlace_stop hx, hc.clear_stop hx⟩
  · refine ⟨Text.isPlace_iff.2 ⟨t, [], by simp, rfl⟩, fun e he => .inl ?_⟩
    have := (hc.fit.start_le e he).2.2
    omega

theorem remap_liesIn (s : Synthesis t ss pre rep post r)
    (ha : Marked t (pre ++ rep.reduceOption ++ post))
    (hs : (TextEdit.applyAll r.edits t).size ≤ maxPlace) {a : CallSite}
    (hm : ⟨a, []⟩ ∈ staying pre s.patchings post) :
    (r.remap a).LiesIn (TextEdit.applyAll r.edits t) :=
  ((s.carries ha).lands hs hm (patchesTo_nil (s.stay_spans ha.toAligned _ hm).liesIn)).1

def settled (r : Rewrite) (id : ActionId) : CallSite := (r.siteOf? id).getD ⟨0, 0, [], []⟩

theorem settled_eq (s : Synthesis t ss pre rep post r) (hn : (ss.map (·.id)).Nodup)
    {id : ActionId} {a : CallSite} (h : (id, a) ∈ r.sites) :
    r.siteOf? id = some a ∧ settled r id = a := by
  have := siteOf?_eq_some (s.keys_perm.nodup_iff.2 hn) h
  exact ⟨this, by rw [settled, this, Option.getD_some]⟩

theorem settled_eq_patched (s : Synthesis t ss pre rep post r) (hn : (ss.map (·.id)).Nodup)
    {p : Patching} (hp : p ∈ s.patchings) :
    r.siteOf? p.step.id = some (settled r p.step.id) ∧
      settled r p.step.id = { p.site with
        start := TextEdit.landStart r.edits p.site.start
        stop := TextEdit.landStart r.edits p.site.start + p.site.text.size } := by
  have hmem : (p.step.id, ({ p.site with
        start := TextEdit.landStart r.edits p.site.start
        stop := TextEdit.landStart r.edits p.site.start + p.site.text.size } : CallSite)) ∈ r.sites := by
    rw [s.sites_eq]
    exact List.mem_append_right _ (List.mem_map.2 ⟨p, hp, rfl⟩)
  obtain ⟨hsite, heq⟩ := s.settled_eq hn hmem
  exact ⟨hsite.trans (congrArg some heq.symm), heq⟩

/-- A patched call stands where the old one did. -/
theorem settled_patching (s : Synthesis t ss pre rep post r)
    (ha : Marked t (pre ++ rep.reduceOption ++ post))
    (hs : (TextEdit.applyAll r.edits t).size ≤ maxPlace)
    (hn : (ss.map (·.id)).Nodup) {p : Patching} (hp : p ∈ s.patchings) :
    r.siteOf? p.step.id = some (settled r p.step.id) ∧
      (settled r p.step.id).LiesIn (TextEdit.applyAll r.edits t) ∧
      (CallText.Proper ⟨p.old.text, p.old.params⟩ →
        CallText.Proper ⟨(settled r p.step.id).text, (settled r p.step.id).params⟩) ∧
      (settled r p.step.id).start = TextEdit.landStart r.edits p.old.start ∧
      (settled r p.step.id).stop = TextEdit.landEnd r.edits p.old.stop := by
  obtain ⟨hsite, heq⟩ := s.settled_eq_patched hn hp
  have hpatch := s.patchesTo ha hp
  obtain ⟨hlies, hstop⟩ := (s.carries ha).lands hs (patched_staying hp) hpatch
  simp only at hlies hstop
  refine ⟨hsite, ?_⟩
  rw [heq, hpatch.start_eq, ← hstop]
  exact ⟨hlies, hpatch.proper, rfl, rfl⟩

theorem settled_run (s : Synthesis t ss pre rep post r) (hn : (ss.map (·.id)).Nodup)
    (ha : Marked t (pre ++ rep.reduceOption ++ post))
    (hs : (TextEdit.applyAll r.edits t).size ≤ maxPlace)
    {i : Run × Part} (hi : i ∈ s.insertions) :
    i.1.2.1.map (fun x => settled r x.id) = i.2.placed.map
        (·.siteAt (TextEdit.landEnd r.edits (place t pre rep post i.1))) ∧
      ∀ x ∈ i.1.2.1, r.siteOf? x.id = some (settled r x.id) := by
  obtain ⟨-, -, hmem⟩ := s.lands_insertion ha hs hi
  have hids := s.placed_ids hi
  constructor
  · have h1 : i.1.2.1.map (fun x => settled r x.id) = (i.1.2.1.map (·.id)).map (settled r) := by
      rw [List.map_map]
      rfl
    rw [h1, ← hids, List.map_map]
    exact List.map_congr_left fun w hw => (s.settled_eq hn (hmem w hw)).2
  · intro x hx
    have : x.id ∈ i.2.placed.map (·.id) := hids ▸ List.mem_map.2 ⟨x, hx, rfl⟩
    obtain ⟨w, hw, hwx⟩ := List.mem_map.1 this
    obtain ⟨h1, h2⟩ := s.settled_eq hn (hmem w hw)
    rw [← hwx, h2]
    exact h1

theorem generate_of_run (s : Synthesis t ss pre rep post r) (hn : (ss.map (·.id)).Nodup)
    (ha : Marked t (pre ++ rep.reduceOption ++ post))
    (hs : (TextEdit.applyAll r.edits t).size ≤ maxPlace) {i : Run × Part} (hi : i ∈ s.insertions)
    {x : Step} (hx : x ∈ i.1.2.1) :
    x.action.generate = .ok ⟨(settled r x.id).text, (settled r x.id).params⟩ := by
  obtain ⟨-, -, head, lead, trail, hwrite, -⟩ := s.insertion_spec hi
  obtain ⟨new, hnew, hgen, -⟩ := writeRun_eq_ok hwrite
  obtain rfl : i.2.placed = new := hnew
  have hmem : (x.id, x.action.generate) ∈ i.2.placed.map fun w => (w.id, (.ok w.call : Except WriteError CallText)) :=
    hgen ▸ List.mem_map_of_mem hx
  obtain ⟨w, hw, heq⟩ := List.mem_map.1 hmem
  obtain ⟨hid, hcall⟩ := Prod.mk.inj heq
  obtain ⟨-, -, hsites⟩ := s.lands_insertion ha hs hi
  rw [← hcall, ← hid, (s.settled_eq hn (hsites w hw)).2]
  rfl

/-- Behind a slot, and behind what stands before the edit. -/
def lower (r : Rewrite) (pre : List CallSite) (rep : List (Option CallSite)) : Option Nat → Nat
  | some k => (rep[k]?.join.map fun a => TextEdit.landEnd r.edits a.stop).getD 0
  | none => (pre.getLast?.map fun a => TextEdit.landEnd r.edits a.stop).getD 0

/-- Before a slot, and before what stands behind the edit. -/
def upper (t : Text) (r : Rewrite) (rep : List (Option CallSite)) (post : List CallSite) :
    Option Nat → Nat
  | some k => (rep[k]?.join.map fun a => TextEdit.landStart r.edits a.start).getD 0
  | none => (post.head?.map fun a => TextEdit.landStart r.edits a.start).getD
      (TextEdit.applyAll r.edits t).size

theorem lower_le_place (s : Synthesis t ss pre rep post r)
    (ha : Marked t (pre ++ rep.reduceOption ++ post))
    (hs : (TextEdit.applyAll r.edits t).size ≤ maxPlace) {i : Run × Part} (hi : i ∈ s.insertions) :
    lower r pre rep i.1.1 ≤ TextEdit.landEnd r.edits (place t pre rep post i.1) := by
  have hc := s.carries ha
  obtain ⟨hp, hcl⟩ := s.place_clear ha hi
  have hle : ∀ x ∈ staying pre s.patchings post, previousOf pre rep i.1 = some x.site →
      TextEdit.landEnd r.edits x.site.stop
        ≤ TextEdit.landEnd r.edits (place t pre rep post i.1) := fun x hx h =>
    TextEdit.landEnd_mono hc.fit (hc.isPlace_stop hx) hp (hc.clear_stop hx) hcl
      (s.previous_le_place ha.toAligned hi h) hs
  rcases s.previous_of_mem hi with ⟨p, hpm, hk, hpo⟩ | ⟨hk, hpo⟩
  · rw [hk, lower, s.old_eq p hpm]
    exact hle _ (patched_staying hpm) hpo
  · rw [hk, lower]
    cases hl : pre.getLast? with
    | none => exact Nat.zero_le _
    | some a =>
      refine hle ⟨a, []⟩ (left_staying (List.mem_of_getLast? hl)) ?_
      rw [hpo, hl]

theorem place_le_upper (s : Synthesis t ss pre rep post r)
    (ha : Marked t (pre ++ rep.reduceOption ++ post))
    (hs : (TextEdit.applyAll r.edits t).size ≤ maxPlace) {i : Run × Part} (hi : i ∈ s.insertions) :
    TextEdit.landStart r.edits (place t pre rep post i.1) ≤ upper t r rep post i.1.2.2 := by
  rcases s.next_of_mem hi with ⟨p, hpm, hk, hpo⟩ | ⟨hk, hpo⟩
  · rw [hk, upper, s.old_eq p hpm, place_eq_of_next hpo]
    exact Nat.le_refl _
  · rw [hk, upper]
    cases hl : post.head? with
    | some b =>
      rw [hl] at hpo
      rw [place_eq_of_next hpo]
      exact Nat.le_refl _
    | none =>
      obtain ⟨h1, h2, -⟩ := s.lands_insertion ha hs hi
      rw [← h2]
      exact h1.le_size

theorem settled_between (s : Synthesis t ss pre rep post r) (hn : (ss.map (·.id)).Nodup)
    (ha : Marked t (pre ++ rep.reduceOption ++ post))
    (hs : (TextEdit.applyAll r.edits t).size ≤ maxPlace) :
    ss.Pairwise (fun x y => (settled r x.id).stop ≤ (settled r y.id).start) ∧
      ∀ x ∈ ss, lower r pre rep none ≤ (settled r x.id).start ∧
        (settled r x.id).stop ≤ upper t r rep post none := by
  have hc := s.carries ha
  have ho := ha.ordered
  rw [List.pairwise_append, List.pairwise_append] at ho
  obtain ⟨⟨-, hrep, hpr⟩, -, hp2⟩ := ho
  have h := @pairwise_of_runs (fun x => settled r x.id) (lower r pre rep) (upper t r rep post)
    none s.shares [] ?_ ?_ ?_
  · rwa [List.reverse_nil, List.nil_append, s.steps_eq] at h
  · intro q hq
    rw [← s.runs_eq, List.mem_map] at hq
    obtain ⟨i, hi, rfl⟩ := hq
    obtain ⟨heq, -⟩ := s.settled_run hn ha hs hi
    obtain ⟨hstand, hpair⟩ := s.run_stands ha hs hi
    rw [← heq] at hstand hpair
    have h1 := s.lower_le_place ha hs hi
    have h2 := s.place_le_upper ha hs hi
    refine ⟨List.pairwise_map.1 hpair, fun x hx => ?_⟩
    have := hstand _ (List.mem_map.2 ⟨x, hx, rfl⟩)
    omega
  · intro p hp k hk
    obtain ⟨q, hq, hqp, rfl⟩ := s.exists_patching hp hk
    obtain ⟨-, hst, -, hstart, hstop⟩ := s.settled_patching ha hs hn hq
    have hlt := hst.start_lt_stop
    have hold := s.old_eq q hq
    rw [hqp] at hst hstart hstop hlt
    simp only [lower, upper, hold, Option.join_some, Option.map_some, Option.getD_some]
    refine ⟨hstart, hstop, by omega, ?_, ?_⟩
    · cases hl : pre.getLast? with
      | none => exact Nat.zero_le _
      | some a =>
        have ham := List.mem_of_getLast? hl
        exact hc.landEnd_le_landStart hs (left_staying ham) (patched_staying hq)
          (hpr a ham _ (s.mem_rep hq))
    · cases hl : post.head? with
      | none =>
        have := hst.stop_le_size
        simp only [Option.map_none, Option.getD_none]
        omega
      | some b =>
        have hbm := List.mem_of_head? hl
        exact hc.landEnd_le_landStart hs (patched_staying hq) (right_staying hbm)
          (hp2 _ (List.mem_append_right _ (s.mem_rep hq)) b hbm)
  · refine s.order.imp_of_mem fun {a b} ham hbm hab i j hi hj => ?_
    obtain ⟨p, hp, -, rfl⟩ := s.exists_patching ham hi
    obtain ⟨q, hq, -, rfl⟩ := s.exists_patching hbm hj
    simp only [lower, upper, s.old_eq p hp, s.old_eq q hq, Option.join_some, Option.map_some,
      Option.getD_some]
    exact hc.landEnd_le_landStart hs (patched_staying hp) (patched_staying hq)
      (stop_le_start_of_lt hrep (s.old_eq p hp) (s.old_eq q hq) (hab _ _ hi hj))

theorem settled_liesIn (s : Synthesis t ss pre rep post r) (hn : (ss.map (·.id)).Nodup)
    (ha : Marked t (pre ++ rep.reduceOption ++ post))
    (hs : (TextEdit.applyAll r.edits t).size ≤ maxPlace) {x : Step} (hx : x ∈ ss) :
    r.siteOf? x.id = some (settled r x.id) ∧
      (settled r x.id).LiesIn (TextEdit.applyAll r.edits t) ∧
      ((∀ a ∈ rep.reduceOption, CallText.Proper ⟨a.text, a.params⟩) →
        CallText.Proper ⟨(settled r x.id).text, (settled r x.id).params⟩) := by
  rcases s.patching_or_run hx with ⟨p, hp, rfl⟩ | ⟨i, hi, hxi⟩
  · obtain ⟨hsite, hlies, hproper, -⟩ := s.settled_patching ha hs hn hp
    exact ⟨hsite, hlies, fun h => hproper (h p.old (s.mem_rep hp))⟩
  · obtain ⟨heq, hsite⟩ := s.settled_run hn ha hs hi
    obtain ⟨hstand, -⟩ := s.run_stands ha hs hi
    rw [← heq] at hstand
    obtain ⟨hlies, hproper, -⟩ := hstand _ (List.mem_map.2 ⟨x, hxi, rfl⟩)
    exact ⟨hsite x hxi, hlies, fun _ => hproper⟩

theorem stop_le_lower (s : Synthesis t ss pre rep post r)
    (ha : Marked t (pre ++ rep.reduceOption ++ post))
    (hs : (TextEdit.applyAll r.edits t).size ≤ maxPlace) {a : CallSite} (hm : a ∈ pre) :
    (r.remap a).stop ≤ lower r pre rep none := by
  have hc := s.carries ha
  obtain ⟨b, hb⟩ := Option.isSome_iff_exists.1 (List.getLast?_isSome.2 (List.ne_nil_of_mem hm))
  obtain ⟨init, rfl⟩ := List.getLast?_eq_some_iff.1 hb
  have hbm : b ∈ init ++ [b] := by simp
  rw [lower, hb]
  refine TextEdit.landEnd_mono hc.fit (hc.isPlace_stop (left_staying hm))
    (hc.isPlace_stop (left_staying hbm)) (hc.clear_stop (left_staying hm))
    (hc.clear_stop (left_staying hbm)) ?_ hs
  show a.stop ≤ b.stop
  rcases List.mem_append.1 hm with hm | hm
  · have hpp := (List.pairwise_append.1 (List.pairwise_append.1 ha.ordered).1).1
    have h1 := (List.pairwise_append.1 hpp).2.2 a hm b List.mem_cons_self
    have h2 : b.start < b.stop := (hc.liesIn (left_staying hbm)).start_lt_stop
    omega
  · exact Nat.le_of_eq (congrArg CallSite.stop (List.mem_singleton.1 hm))

theorem upper_le_start (s : Synthesis t ss pre rep post r)
    (ha : Marked t (pre ++ rep.reduceOption ++ post))
    (hs : (TextEdit.applyAll r.edits t).size ≤ maxPlace) {b : CallSite} (hm : b ∈ post) :
    upper t r rep post none ≤ (r.remap b).start := by
  have hc := s.carries ha
  obtain ⟨a, ha'⟩ := Option.isSome_iff_exists.1 (List.isSome_head?.2 (List.ne_nil_of_mem hm))
  obtain ⟨rest, rfl⟩ := List.head?_eq_some_iff.1 ha'
  have ham : a ∈ a :: rest := List.mem_cons_self
  rw [upper, ha']
  refine TextEdit.landStart_mono hc.fit (hc.isPlace_start (right_staying ham))
    (hc.isPlace_start (right_staying hm)) (hc.clear_start (right_staying ham))
    (hc.clear_start (right_staying hm)) ?_ hs
  show a.start ≤ b.start
  rcases List.mem_cons.1 hm with rfl | hm
  · exact Nat.le_refl _
  · have h1 := (List.pairwise_cons.1 (List.pairwise_append.1 ha.ordered).2.1).1 b hm
    have h2 : a.start < a.stop := (hc.liesIn (right_staying ham)).start_lt_stop
    omega

/-- After the edits the texts of all sites stand in the text again, one behind the other. -/
theorem lies_settled (s : Synthesis t ss pre rep post r) (hn : (ss.map (·.id)).Nodup)
    (ha : Marked t (pre ++ rep.reduceOption ++ post))
    (hs : (TextEdit.applyAll r.edits t).size ≤ maxPlace) :
    let sites := pre.map r.remap ++ ss.map (fun x => settled r x.id) ++ post.map r.remap
    (∀ a ∈ sites, a.LiesIn (TextEdit.applyAll r.edits t)) ∧
      sites.Pairwise fun a b => a.stop ≤ b.start := by
  intro sites
  have hc := s.carries ha
  constructor
  · intro a hm
    simp only [sites, List.mem_append, List.mem_map] at hm
    rcases hm with (⟨a, hm, rfl⟩ | ⟨x, hx, rfl⟩) | ⟨a, hm, rfl⟩
    · exact s.remap_liesIn ha hs (left_staying hm)
    · exact (s.settled_liesIn hn ha hs hx).2.1
    · exact s.remap_liesIn ha hs (right_staying hm)
  · have ho := ha.ordered
    rw [List.pairwise_append, List.pairwise_append] at ho
    obtain ⟨⟨hpp, -, -⟩, hqq, hp2⟩ := ho
    obtain ⟨hss, hbetween⟩ := s.settled_between hn ha hs
    simp only [sites, List.pairwise_append, List.pairwise_map, List.mem_append, List.mem_map]
    refine ⟨⟨?_, hss, ?_⟩, ?_, ?_⟩
    · exact hpp.imp_of_mem fun {a b} hm hb hab =>
        hc.landEnd_le_landStart hs (left_staying hm) (left_staying hb) hab
    · rintro _ ⟨a, hm, rfl⟩ _ ⟨x, hx, rfl⟩
      exact Nat.le_trans (s.stop_le_lower ha hs hm) (hbetween x hx).1
    · exact hqq.imp_of_mem fun {a b} hm hb hab =>
        hc.landEnd_le_landStart hs (right_staying hm) (right_staying hb) hab
    · rintro _ (⟨a, hm, rfl⟩ | ⟨x, hx, rfl⟩) _ ⟨b, hb, rfl⟩
      · exact hc.landEnd_le_landStart hs (left_staying hm) (right_staying hb)
          (hp2 a (List.mem_append_left _ hm) b hb)
      · exact Nat.le_trans (hbetween x hx).2 (s.upper_le_start ha hs hb)

/-- After the edits all calls stand one behind the other again. -/
theorem anchored_settled (s : Synthesis t ss pre rep post r) (hn : (ss.map (·.id)).Nodup)
    (ha : Anchored t (pre ++ rep.reduceOption ++ post))
    (hs : (TextEdit.applyAll r.edits t).size ≤ maxPlace) :
    Anchored (TextEdit.applyAll r.edits t)
      (pre.map r.remap ++ ss.map (fun x => settled r x.id) ++ post.map r.remap) := by
  obtain ⟨hlies, hordered⟩ := s.lies_settled hn ha.marked hs
  refine ⟨fun a hm => ⟨(hlies a hm).stands, (hlies a hm).stop_eq, ?_⟩, hordered⟩
  simp only [List.mem_append, List.mem_map] at hm
  rcases hm with (⟨b, hm, rfl⟩ | ⟨x, hx, rfl⟩) | ⟨b, hm, rfl⟩
  · exact (ha.stands b (by simp [hm])).proper
  · exact (s.settled_liesIn hn ha.marked hs hx).2.2 fun b hm => (ha.stands b (by simp [hm])).proper
  · exact (ha.stands b (by simp [hm])).proper

end Synthesis

end RoutineSync.Rewrite
