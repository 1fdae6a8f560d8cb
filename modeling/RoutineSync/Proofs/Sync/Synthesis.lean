import Mathlib.Data.List.ReduceOption
import RoutineSync.Proofs.Routine.Invariant
import RoutineSync.Proofs.Sync.Runs
import RoutineSync.Proofs.Sync.Sketch
/-!
What an edit of the routine asks of the text: the pairs are patched, the replaced steps without a
pair go, and the new steps without one are inserted run by run.
-/
set_option autoImplicit false

namespace RoutineSync.Rewrite

/-- A step that continues the one in a slot, and the call of that one before and after. -/
structure Patching where
  step : Step
  slot : Nat
  old : CallSite
  edits : List TextEdit
  site : CallSite

/-- The call of the replaced step in the slot is patched for the step. -/
def Patching.Continues (p : Patching) (replaced : List Step) : Prop :=
  ∃ old, replaced[p.slot]? = some old ∧ old.site = some p.old ∧
    p.old.patchTo old.action p.step.action = .ok (p.edits, p.site)

theorem Patching.Continues.old_eq {p : Patching} {replaced : List Step} (h : p.Continues replaced) :
    (replaced.map (·.site))[p.slot]? = some (some p.old) := by
  obtain ⟨old, hold, hsite, -⟩ := h
  rw [List.getElem?_map, hold, Option.map_some, hsite]

theorem Patching.Continues.patched {p : Patching} {replaced : List Step} (h : p.Continues replaced) :
    p.old.Patched p.step.action p.edits p.site := by
  obtain ⟨old, -, -, hpatch⟩ := h
  exact CallSite.patched_of_patchTo hpatch

/-- A run of new steps between two slots. -/
abbrev Run := Option Nat × List Step × Option Nat

/-- The call that stays next behind a run, and the one before it; the replaced steps have the sites
`rep`, some none. -/
def nextOf (rep : List (Option CallSite)) (post : List CallSite) (r : Run) : Option CallSite :=
  (r.2.2.bind fun k => rep[k]?.join).or post.head?

def previousOf (pre : List CallSite) (rep : List (Option CallSite)) (r : Run) : Option CallSite :=
  (r.1.bind fun k => rep[k]?.join).or pre.getLast?

def goneSites (rep : List (Option CallSite)) (pairing : List (Option Nat)) : List CallSite :=
  rep.zipIdx.filterMap fun p => if pairing.contains (some p.2) then none else p.1

/-- The calls that stay: those before the edit, the patched ones and those behind the edit. -/
def staying (pre : List CallSite) (patchings : List Patching) (post : List CallSite) :
    List Staying :=
  pre.map (fun s => ⟨s, []⟩) ++ patchings.map (fun p => ⟨p.old, p.edits⟩)
    ++ post.map fun s => ⟨s, []⟩

theorem sketchParts_staying (t : Text) (gone pre post : List CallSite) (patchings : List Patching)
    (inserted : List Part) :
    sketchParts t gone (staying pre patchings post) inserted
      = gone.map (fun g => ⟨⟨deletion (.byCount t) g, []⟩, []⟩)
        ++ patchings.flatMap (fun p => p.edits.map fun e => ⟨e, []⟩) ++ inserted := by
  have hnil : ∀ l : List CallSite, l.flatMap (fun _ => ([] : List Part)) = [] :=
    fun l => List.flatMap_eq_nil_iff.2 fun _ _ => rfl
  simp [sketchParts, staying, List.flatMap_map, hnil]

/-- How a rewriting comes about: installed steps share in the slots of the replaced ones, whose
sites are `rep`, between the calls `pre` and `post`. -/
structure Synthesis (t : Text) (ss : List Step) (pre : List CallSite) (rep : List (Option CallSite))
    (post : List CallSite) (r : Rewrite) where
  shares : List (Step × Option Nat)
  steps_eq : shares.map (·.1) = ss
  order : shares.Pairwise fun a b => ∀ i j, a.2 = some i → b.2 = some j → i < j
  patchings : List Patching
  shares_eq : patchings.map (fun p => (p.step, some p.slot)) = shares.filter fun p => p.2.isSome
  old_eq : ∀ p ∈ patchings, rep[p.slot]? = some (some p.old)
  patched : ∀ p ∈ patchings, p.old.Patched p.step.action p.edits p.site
  insertions : List (Run × Part)
  runs_eq : insertions.map (·.1) = runs none shares []
  writes : ∀ i ∈ insertions,
    insertion (.byCount t) i.1.2.1 (nextOf rep post i.1) (previousOf pre rep i.1) = .ok i.2
  parts : List Part
  parts_eq : parts = arranged (sketchParts t (goneSites rep (shares.map (·.2)))
    (staying pre patchings post) (insertions.map (·.2)))
  edits_eq : r.edits = parts.map (·.edit)
  sites_eq : r.sites = placedSites 0 parts ++ patchings.map fun p =>
    let start := TextEdit.landStart r.edits p.site.start
    (p.step.id, { p.site with start, stop := start + p.site.text.size })

theorem mapM_eq_ok {ε α β : Type} {f : α → Except ε β} {xs : List α} {ys : List β}
    (h : xs.mapM f = .ok ys) :
    ∃ ps : List (α × β), ps.map (·.1) = xs ∧ ps.map (·.2) = ys ∧ ∀ p ∈ ps, f p.1 = .ok p.2 := by
  induction xs generalizing ys with
  | nil =>
    rw [List.mapM_nil, Result.pure_eq_ok_iff] at h
    exact ⟨[], rfl, h, by simp⟩
  | cons x xs ih =>
    rw [List.mapM_cons] at h
    obtain ⟨y, hy, h⟩ := Result.bind_eq_ok_iff.1 h
    obtain ⟨zs, hzs, h⟩ := Result.bind_eq_ok_iff.1 h
    rw [Result.pure_eq_ok_iff] at h
    obtain ⟨ps, rfl, rfl, hps⟩ := ih hzs
    exact ⟨(x, y) :: ps, rfl, h, List.forall_mem_cons.2 ⟨hy, hps⟩⟩

/-- What is patched for a step that continues a replaced one. -/
def patching (replaced : List Step) (p : Step × Option Nat) :
    Except WriteError (Option (List TextEdit × ActionId × CallSite)) :=
  (Operations.plain.patching replaced p.1 p.2).run.run

theorem patching_of_sited {replaced : List Step} {s old : Step} {k : Nat} {site : CallSite}
    (hold : replaced[k]? = some old) (hsite : old.site = some site) :
    patching replaced (s, some k)
      = (site.patchTo old.action s.action).map fun x => some (x.1, s.id, x.2) := by
  obtain ⟨id, before, o⟩ := old
  obtain rfl : o = some site := hsite
  have hget : Operations.plain.get? replaced k = pure (some ⟨id, before, some site⟩) := hold
  show (Operations.plain.patching replaced s (some k)).run.run = _
  rw [Operations.patching, hget, Result.run_bind]
  show (Operations.plain.patchTo site before s.action >>= _).run.run = _
  rw [Result.run_bind]
  show site.patchTo before s.action >>= _ = _
  cases site.patchTo before s.action <;> rfl

theorem patchings_of_filterMapM {replaced : List Step} {shares : List (Step × Option Nat)}
    (hsite : ∀ p ∈ shares, ∀ k, p.2 = some k →
      ∃ old, replaced[k]? = some old ∧ old.site.isSome = true)
    {ys : List (List TextEdit × ActionId × CallSite)}
    (h : shares.filterMapM (patching replaced) = .ok ys) :
    ∃ ps : List Patching,
      ps.map (fun p => (p.step, some p.slot)) = shares.filter (fun p => p.2.isSome) ∧
      ps.map (fun p => (p.edits, p.step.id, p.site)) = ys ∧
      ∀ p ∈ ps, p.Continues replaced := by
  induction shares generalizing ys with
  | nil =>
    rw [List.filterMapM_nil, Result.pure_eq_ok_iff] at h
    exact ⟨[], rfl, h, by simp⟩
  | cons p shares ih =>
    obtain ⟨s, o⟩ := p
    rw [List.filterMapM_cons] at h
    have ih := @ih fun p hp => hsite p (List.mem_cons_of_mem _ hp)
    cases o with
    | none =>
      obtain ⟨ps, hps, hys, hall⟩ := ih h
      exact ⟨ps, by simpa using hps, hys, hall⟩
    | some k =>
      obtain ⟨old, hold, hisSome⟩ := hsite _ List.mem_cons_self k rfl
      obtain ⟨a, ha⟩ := Option.isSome_iff_exists.1 hisSome
      obtain ⟨x, hx, h⟩ := Result.bind_eq_ok_iff.1 h
      rw [patching_of_sited hold ha, Result.map_eq_ok_iff] at hx
      obtain ⟨⟨edits, site⟩, hpatch, rfl⟩ := hx
      obtain ⟨zs, hzs, h⟩ := Result.bind_eq_ok_iff.1 h
      rw [Result.pure_eq_ok_iff] at h
      obtain ⟨ps, hps, rfl, hall⟩ := ih hzs
      refine ⟨⟨s, k, a, edits, site⟩ :: ps, by simp [hps], h, ?_⟩
      exact List.forall_mem_cons.2 ⟨⟨_, hold, ha, hpatch⟩, hall⟩

theorem run_siteOfSlot (steps : List Step) (slot : Option Nat) :
    (Operations.plain.siteOfSlot steps slot).run
      = slot.bind fun k => (steps.map (·.site))[k]?.join := by
  cases slot with
  | none => rfl
  | some k =>
    rw [Option.bind_some, List.getElem?_map]
    show steps[k]?.bind (·.site) = _
    cases steps[k]? <;> rfl

theorem run_removals (source : Source) (pairing : List (Option Nat)) (replaced : List Step) :
    (Operations.plain.removals source.access pairing replaced).run
      = (goneSites (replaced.map (·.site)) pairing).map
          fun g => ⟨⟨deletion source g, []⟩, []⟩ := by
  rw [Operations.removals, Result.idRun_filterMapM, goneSites, List.map_filterMap, List.zipIdx_map,
    List.filterMap_map]
  refine List.filterMap_congr fun p _ => ?_
  obtain ⟨⟨id, action, o⟩, slot⟩ := p
  rw [Function.comp_apply, apply_ite (Option.map _), Option.map_none]
  show (if pairing.contains (some slot) then _ else _ : Id _).run = _
  rw [apply_ite Id.run]
  cases o <;> rfl

/-- A run of new steps is written between the calls that stay next to it. -/
def inserting (source : Source) (steps : List Step) (e : RoutineEdit) (r : Run) :
    Except WriteError Part :=
  let rep := ((steps.drop e.index).take e.count).map (·.site)
  insertion source r.2.1 (nextOf rep (sitesOf (steps.drop (e.index + e.count))) r)
    (previousOf (sitesOf (steps.take e.index)) rep r)

/-- What an edit comes down to, once what is there of the lists has been read. -/
theorem synthesize_eq (steps : List Step) (e : RoutineEdit) (source : Source) :
    synthesize steps e source = (do
      (checkRange e.index e.count steps.length).mapError WriteError.outOfRange
      let replaced := (steps.drop e.index).take e.count
      let pairing := pairs 0 e.steps replaced
      let patched ← (e.steps.zip pairing).filterMapM (patching replaced)
      let insertions ← (runs none (e.steps.zip pairing) []).mapM (inserting source steps e)
      let deletions : List Part := (goneSites (replaced.map (·.site)) pairing).map
        fun g => ⟨⟨deletion source g, []⟩, []⟩
      let parts := arranged (deletions ++ patchParts patched ++ insertions)
      return ⟨parts.map (·.edit), placedSites 0 parts ++ patched.map fun x =>
        let start := TextEdit.landStart (parts.map (·.edit)) x.2.2.start
        (x.2.1, { x.2.2 with start, stop := start + x.2.2.text.size })⟩) := by
  unfold synthesize Operations.synthesize
  simp only [Result.run_bind_lift, Id.run_bind, Result.run_bind, Result.run_mapM,
    Result.run_filterMapM]
  refine bind_congr fun _ => ?_
  have hrange : ∀ i n, (Operations.plain.range steps i n).run = (steps.drop i).take n :=
    fun _ _ => rfl
  have hpairs : ∀ replaced, (Operations.plain.pairs 0 e.steps replaced).run
      = pairs 0 e.steps replaced := fun _ => rfl
  rw [hrange, hpairs, run_plain_runs (length_pairs 0 _ _), run_removals]
  refine bind_congr fun patched => ?_
  refine congrArg₂ bind (congrArg (List.mapM · _) (funext fun r => ?_)) (funext fun ins => ?_)
  · rw [run_siteOfSlot, run_siteOfSlot, inserting, nextOf, previousOf, sitesOf, sitesOf,
      List.head?_filterMap, ← List.head?_reverse, ← List.filterMap_reverse, List.head?_filterMap]
    rfl
  · rw [Operations.patchedSites, List.idRun_mapM]
    rfl

theorem exists_synthesis_of_steps {steps : List Step} {t : Text} {e : RoutineEdit} {r : Rewrite}
    (h : synthesize steps e (.byCount t) = .ok r) :
    e.index + e.count ≤ steps.length ∧
      ∃ s : Synthesis t e.steps (sitesOf (steps.take e.index))
        (((steps.drop e.index).take e.count).map (·.site))
        (sitesOf (steps.drop (e.index + e.count))) r,
        s.shares = e.steps.zip (pairs 0 e.steps ((steps.drop e.index).take e.count)) ∧
          ∀ p ∈ s.patchings, p.Continues ((steps.drop e.index).take e.count) := by
  rw [synthesize_eq] at h
  obtain ⟨hrange, h⟩ := Result.check_eq_ok_iff.1 h
  rw [Result.mapError_eq_ok_iff, checkRange_eq_ok_iff] at hrange
  refine ⟨hrange, ?_⟩
  dsimp only at h
  obtain ⟨patched, hpatched, h⟩ := Result.bind_eq_ok_iff.1 h
  obtain ⟨insertions, hinsertions, h⟩ := Result.bind_eq_ok_iff.1 h
  rw [Result.pure_eq_ok_iff] at h
  generalize hreplaced : (steps.drop e.index).take e.count = replaced at *
  have hlength : (pairs 0 e.steps replaced).length = e.steps.length := length_pairs 0 _ _
  have hfst : (e.steps.zip (pairs 0 e.steps replaced)).map (·.1) = e.steps :=
    List.map_fst_zip (Nat.le_of_eq hlength.symm)
  have hsnd : (e.steps.zip (pairs 0 e.steps replaced)).map (·.2) = pairs 0 e.steps replaced :=
    List.map_snd_zip (Nat.le_of_eq hlength)
  obtain ⟨patchings, hshares, rfl, hpatch⟩ := patchings_of_filterMapM sited_of_mem_pairs hpatched
  obtain ⟨ins, hruns, rfl, hwrites⟩ := mapM_eq_ok hinsertions
  have hparts := sketchParts_staying t (goneSites (replaced.map (·.site)) (pairs 0 e.steps replaced))
    (sitesOf (steps.take e.index)) (sitesOf (steps.drop (e.index + e.count))) patchings
    (ins.map (·.2))
  refine ⟨{
    shares := e.steps.zip (pairs 0 e.steps replaced)
    steps_eq := hfst
    order := pairwise_pairs 0 _ _
    patchings := patchings
    shares_eq := hshares
    old_eq := fun p hp => (hpatch p hp).old_eq
    patched := fun p hp => (hpatch p hp).patched
    insertions := ins
    runs_eq := hruns
    writes := fun i hi => hreplaced ▸ hwrites i hi
    parts := _
    parts_eq := rfl
    edits_eq := ?_
    sites_eq := ?_ }, rfl, hpatch⟩
  · rw [hsnd, hparts, ← h, patchParts, List.flatMap_map]
  · rw [hsnd, hparts, ← h, patchParts, List.flatMap_map, List.map_map]
    rfl

theorem exists_synthesis {steps : List Step} {t : Text} {e : RoutineEdit} {r : Rewrite}
    (h : synthesize steps e (.byCount t) = .ok r) :
    e.index + e.count ≤ steps.length ∧
      ∃ s : Synthesis t e.steps (sitesOf (steps.take e.index))
        (((steps.drop e.index).take e.count).map (·.site))
        (sitesOf (steps.drop (e.index + e.count))) r,
        s.shares = e.steps.zip (pairs 0 e.steps ((steps.drop e.index).take e.count)) := by
  obtain ⟨hrange, s, hshares, -⟩ := exists_synthesis_of_steps h
  exact ⟨hrange, s, hshares⟩

theorem mem_goneSites_iff {rep : List (Option CallSite)} {pairing : List (Option Nat)}
    {g : CallSite} :
    g ∈ goneSites rep pairing ↔ ∃ k, rep[k]? = some (some g) ∧ some k ∉ pairing := by
  simp only [goneSites, List.mem_filterMap, Prod.exists, List.mem_zipIdx_iff_getElem?,
    List.contains_iff_mem, Option.ite_none_left_eq_some]
  constructor
  · rintro ⟨a, k, ha, hk, rfl⟩
    exact ⟨k, ha, hk⟩
  · rintro ⟨k, hg, hk⟩
    exact ⟨some g, k, hg, hk, rfl⟩

theorem stop_le_start_of_lt {sites : List (Option CallSite)} {i j : Nat} {a b : CallSite}
    (h : sites.reduceOption.Pairwise fun s r => s.stop ≤ r.start) (hi : sites[i]? = some (some a))
    (hj : sites[j]? = some (some b)) (hij : i < j) : a.stop ≤ b.start := by
  obtain ⟨hi', hia⟩ := List.getElem?_eq_some_iff.1 hi
  obtain ⟨hj', hjb⟩ := List.getElem?_eq_some_iff.1 hj
  exact List.pairwise_iff_getElem.1 (List.pairwise_filterMap.1 h) i j hi' hj' hij a hia b hjb

namespace Synthesis
variable {t : Text} {ss : List Step} {pre post : List CallSite} {rep : List (Option CallSite)}
  {r : Rewrite}

theorem exists_patching (s : Synthesis t ss pre rep post r) {p : Step × Option Nat}
    (hp : p ∈ s.shares) {k : Nat} (hk : p.2 = some k) :
    ∃ q ∈ s.patchings, q.step = p.1 ∧ q.slot = k := by
  have : p ∈ s.shares.filter fun p => p.2.isSome := List.mem_filter.2 ⟨hp, by simp [hk]⟩
  rw [← s.shares_eq, List.mem_map] at this
  obtain ⟨q, hq, rfl⟩ := this
  exact ⟨q, hq, rfl, Option.some.inj hk⟩

theorem mem_shares (s : Synthesis t ss pre rep post r) {p : Patching} (hp : p ∈ s.patchings) :
    (p.step, some p.slot) ∈ s.shares := by
  have : (p.step, some p.slot) ∈ s.patchings.map fun p => (p.step, some p.slot) :=
    List.mem_map.2 ⟨p, hp, rfl⟩
  rw [s.shares_eq] at this
  exact (List.mem_filter.1 this).1

theorem pairwise_slot (s : Synthesis t ss pre rep post r) :
    s.patchings.Pairwise fun p q => p.slot < q.slot := by
  have := s.order.filter fun p => p.2.isSome
  rw [← s.shares_eq, List.pairwise_map] at this
  exact this.imp fun h => h _ _ rfl rfl

theorem mem_rep (s : Synthesis t ss pre rep post r) {p : Patching} (hp : p ∈ s.patchings) :
    p.old ∈ rep.reduceOption :=
  List.reduceOption_mem_iff.2 (List.mem_of_getElem? (s.old_eq p hp))

/-- Behind a run comes the call in the next slot, or the first one behind the edit. -/
theorem next_of_mem (s : Synthesis t ss pre rep post r) {i : Run × Part} (hi : i ∈ s.insertions) :
    (∃ p ∈ s.patchings, i.1.2.2 = some p.slot ∧ nextOf rep post i.1 = some p.old) ∨
      (i.1.2.2 = none ∧ nextOf rep post i.1 = post.head?) := by
  have hr : i.1 ∈ runs none s.shares [] := s.runs_eq ▸ List.mem_map.2 ⟨i, hi, rfl⟩
  obtain ⟨-, h2, -⟩ := slots_of_mem_runs hr s.order (by simp)
  unfold nextOf
  cases hn : i.1.2.2 with
  | none => exact .inr ⟨rfl, rfl⟩
  | some k =>
    rw [hn] at h2
    obtain ⟨p, hp, hk⟩ := h2.resolve_left (by simp)
    obtain ⟨q, hq, -, rfl⟩ := s.exists_patching hp hk
    exact .inl ⟨q, hq, rfl, by simp [s.old_eq q hq]⟩

theorem previous_of_mem (s : Synthesis t ss pre rep post r) {i : Run × Part}
    (hi : i ∈ s.insertions) :
    (∃ p ∈ s.patchings, i.1.1 = some p.slot ∧ previousOf pre rep i.1 = some p.old) ∨
      (i.1.1 = none ∧ previousOf pre rep i.1 = pre.getLast?) := by
  have hr : i.1 ∈ runs none s.shares [] := s.runs_eq ▸ List.mem_map.2 ⟨i, hi, rfl⟩
  obtain ⟨h1, -⟩ := slots_of_mem_runs hr s.order (by simp)
  unfold previousOf
  rcases h1 with h1 | ⟨p, hp, k, hk, h1⟩
  · exact .inr ⟨h1, by simp [h1]⟩
  · obtain ⟨q, hq, -, rfl⟩ := s.exists_patching hp hk
    exact .inl ⟨q, hq, h1, by simp [h1, s.old_eq q hq]⟩

/-- The runs hold the new steps that continue none. -/
theorem exists_run_iff (s : Synthesis t ss pre rep post r) {x : Step} :
    (∃ i ∈ s.insertions, x ∈ i.1.2.1) ↔ (x, none) ∈ s.shares := by
  have hruns : (∃ i ∈ s.insertions, x ∈ i.1.2.1) ↔ x ∈ (runs none s.shares []).flatMap (·.2.1) := by
    rw [← s.runs_eq, List.flatMap_map, List.mem_flatMap]
  rw [hruns, flatMap_runs, List.reverse_nil, List.nil_append, List.mem_map]
  constructor
  · rintro ⟨⟨x, o⟩, hp, rfl⟩
    obtain ⟨hp, ho⟩ := List.mem_filter.1 hp
    obtain rfl := Option.isNone_iff_eq_none.1 ho
    exact hp
  · exact fun hp => ⟨_, List.mem_filter.2 ⟨hp, rfl⟩, rfl⟩

theorem mem_of_mem_run (s : Synthesis t ss pre rep post r) {i : Run × Part} (hi : i ∈ s.insertions)
    {x : Step} (hx : x ∈ i.1.2.1) : x ∈ ss := by
  have hmem := List.mem_map_of_mem (f := (·.1)) (s.exists_run_iff.1 ⟨i, hi, hx⟩)
  rwa [s.steps_eq] at hmem

theorem patching_or_run (s : Synthesis t ss pre rep post r) {x : Step} (hx : x ∈ ss) :
    (∃ p ∈ s.patchings, p.step = x) ∨ ∃ i ∈ s.insertions, x ∈ i.1.2.1 := by
  rw [← s.steps_eq, List.mem_map] at hx
  obtain ⟨⟨x, o⟩, hp, rfl⟩ := hx
  cases o with
  | some k =>
    obtain ⟨q, hq, hqx, -⟩ := s.exists_patching hp rfl
    exact .inl ⟨q, hq, hqx⟩
  | none => exact .inr (s.exists_run_iff.2 hp)

/-- The place of an insertion. -/
def place (t : Text) (pre : List CallSite) (rep : List (Option CallSite)) (post : List CallSite)
    (r : Run) : Nat :=
  insertionPlace t.size (nextOf rep post r) (previousOf pre rep r)

theorem place_eq_of_next {q : Run} {b : CallSite} (h : nextOf rep post q = some b) :
    place t pre rep post q = b.start := by
  rw [place, h, insertionPlace]

theorem previous_le_next (s : Synthesis t ss pre rep post r)
    (ha : Aligned t (pre ++ rep.reduceOption ++ post))
    {i : Run × Part} (hi : i ∈ s.insertions) {a b : CallSite}
    (hp : previousOf pre rep i.1 = some a) (hn : nextOf rep post i.1 = some b) :
    a.stop ≤ b.start := by
  have hr : i.1 ∈ runs none s.shares [] := s.runs_eq ▸ List.mem_map.2 ⟨i, hi, rfl⟩
  obtain ⟨-, -, h3, -⟩ := slots_of_mem_runs hr s.order (by simp)
  have ho := ha.ordered
  rw [List.pairwise_append, List.pairwise_append] at ho
  obtain ⟨⟨hpre, hrep, hpr⟩, hpost, hp2⟩ := ho
  rcases s.previous_of_mem hi with ⟨p, hpm, hk, hpo⟩ | ⟨-, hpo⟩ <;>
    rcases s.next_of_mem hi with ⟨q, hqm, hj, hqo⟩ | ⟨-, hqo⟩
  all_goals
    rw [hpo] at hp
    rw [hqo] at hn
  · obtain rfl := Option.some.inj hp
    obtain rfl := Option.some.inj hn
    exact stop_le_start_of_lt hrep (s.old_eq p hpm) (s.old_eq q hqm) (h3 _ _ hk hj)
  · obtain rfl := Option.some.inj hp
    exact hp2 _ (List.mem_append_right _ (s.mem_rep hpm)) _ (List.mem_of_head? hn)
  · obtain rfl := Option.some.inj hn
    exact hpr _ (List.mem_of_getLast? hp) _ (s.mem_rep hqm)
  · exact hp2 _ (List.mem_append_left _ (List.mem_of_getLast? hp)) _ (List.mem_of_head? hn)

theorem previous_le_place (s : Synthesis t ss pre rep post r)
    (ha : Aligned t (pre ++ rep.reduceOption ++ post)) {i : Run × Part} (hi : i ∈ s.insertions)
    {a : CallSite} (hp : previousOf pre rep i.1 = some a) : a.stop ≤ place t pre rep post i.1 := by
  unfold place
  cases hn : nextOf rep post i.1 with
  | some b => exact s.previous_le_next ha hi hp hn
  | none =>
    rw [hp]
    exact Nat.le_refl _

theorem mem_staying_iff {patchings : List Patching} {x : Staying} :
    x ∈ staying pre patchings post ↔
      (∃ a ∈ pre, x = ⟨a, []⟩) ∨ (∃ p ∈ patchings, x = ⟨p.old, p.edits⟩) ∨
        ∃ a ∈ post, x = ⟨a, []⟩ := by
  simp only [staying, List.mem_append, List.mem_map, eq_comm, or_assoc]

theorem left_staying {patchings : List Patching} {a : CallSite} (h : a ∈ pre) :
    ⟨a, []⟩ ∈ staying pre patchings post := mem_staying_iff.2 (.inl ⟨a, h, rfl⟩)

theorem patched_staying {patchings : List Patching} {p : Patching} (h : p ∈ patchings) :
    ⟨p.old, p.edits⟩ ∈ staying pre patchings post := mem_staying_iff.2 (.inr (.inl ⟨p, h, rfl⟩))

theorem right_staying {patchings : List Patching} {a : CallSite} (h : a ∈ post) :
    ⟨a, []⟩ ∈ staying pre patchings post := mem_staying_iff.2 (.inr (.inr ⟨a, h, rfl⟩))

theorem stay_spans (s : Synthesis t ss pre rep post r)
    (ha : Aligned t (pre ++ rep.reduceOption ++ post)) :
    ∀ x ∈ staying pre s.patchings post, x.site.SpansIn t := by
  intro x hx
  rcases mem_staying_iff.1 hx with ⟨a, hm, rfl⟩ | ⟨p, hp, rfl⟩ | ⟨a, hm, rfl⟩
  · exact ha.spans a (by simp [hm])
  · exact ha.spans p.old (by simp [s.mem_rep hp])
  · exact ha.spans a (by simp [hm])

theorem stay_ordered (s : Synthesis t ss pre rep post r)
    (ha : Aligned t (pre ++ rep.reduceOption ++ post)) :
    (staying pre s.patchings post).Pairwise fun x y => x.site.stop ≤ y.site.start := by
  have ho := ha.ordered
  rw [List.pairwise_append, List.pairwise_append] at ho
  obtain ⟨⟨hpre, hrep, hpr⟩, hpost, hp2⟩ := ho
  rw [staying, List.pairwise_append, List.pairwise_append]
  simp only [List.pairwise_map, List.mem_append, List.mem_map]
  refine ⟨⟨hpre, ?_, ?_⟩, hpost, ?_⟩
  · exact s.pairwise_slot.imp_of_mem fun hp hq hpq =>
      stop_le_start_of_lt hrep (s.old_eq _ hp) (s.old_eq _ hq) hpq
  · rintro _ ⟨a, hm, rfl⟩ _ ⟨p, hp, rfl⟩
    exact hpr a hm _ (s.mem_rep hp)
  · rintro _ (⟨a, hm, rfl⟩ | ⟨p, hp, rfl⟩) _ ⟨b, hb, rfl⟩
    · exact hp2 a (List.mem_append_left _ hm) b hb
    · exact hp2 _ (List.mem_append_right _ (s.mem_rep hp)) b hb

theorem beside (s : Synthesis t ss pre rep post r)
    (ha : Aligned t (pre ++ rep.reduceOption ++ post)) :
    ∀ x ∈ staying pre s.patchings post, ∀ g ∈ goneSites rep (s.shares.map (·.2)),
      x.site.stop ≤ g.start ∨ g.stop ≤ x.site.start := by
  have ho := ha.ordered
  rw [List.pairwise_append, List.pairwise_append] at ho
  obtain ⟨⟨hpre, hrep, hpr⟩, hpost, hp2⟩ := ho
  intro x hx g hg
  obtain ⟨k, hk, hnot⟩ := mem_goneSites_iff.1 hg
  have hmem : g ∈ rep.reduceOption := List.reduceOption_mem_iff.2 (List.mem_of_getElem? hk)
  rcases mem_staying_iff.1 hx with ⟨a, hm, rfl⟩ | ⟨p, hp, rfl⟩ | ⟨a, hm, rfl⟩
  · exact .inl (hpr a hm g hmem)
  · have hne : p.slot ≠ k := by
      rintro rfl
      exact hnot (List.mem_map.2 ⟨_, s.mem_shares hp, rfl⟩)
    rcases Nat.lt_or_gt_of_ne hne with hlt | hlt
    · exact .inl (stop_le_start_of_lt hrep (s.old_eq p hp) hk hlt)
    · exact .inr (stop_le_start_of_lt hrep hk (s.old_eq p hp) hlt)
  · exact .inr (hp2 g (List.mem_append_right _ hmem) a hm)

theorem insertion_spec (s : Synthesis t ss pre rep post r) {i : Run × Part}
    (hi : i ∈ s.insertions) :
    i.2.edit.range = ⟨place t pre rep post i.1, place t pre rep post i.1⟩ ∧
      i.1.2.1 ≠ [] ∧
      ∃ head lead trail, writeRun lead trail i.1.2.1 head [] = .ok (i.2.edit.text, i.2.placed) ∧
        ∀ c ∈ head ++ lead ++ trail, Text.isBlank c = true := by
  have hr : i.1 ∈ runs none s.shares [] := s.runs_eq ▸ List.mem_map.2 ⟨i, hi, rfl⟩
  obtain ⟨h1, h2⟩ := insertion_eq_ok (s.writes i hi)
  exact ⟨h1, ne_nil_of_mem_runs hr, h2⟩

theorem placed_ids (s : Synthesis t ss pre rep post r) {i : Run × Part} (hi : i ∈ s.insertions) :
    i.2.placed.map (·.id) = i.1.2.1.map (·.id) := by
  obtain ⟨-, -, head, lead, trail, hw, -⟩ := s.insertion_spec hi
  obtain ⟨new, hnew, hgen, -⟩ := writeRun_eq_ok hw
  rw [List.nil_append] at hnew
  have := congrArg (List.map (·.1)) hgen
  rw [List.map_map, List.map_map] at this
  rw [hnew]
  exact this

theorem placed_ne_nil (s : Synthesis t ss pre rep post r) {i : Run × Part} (hi : i ∈ s.insertions) :
    i.2.placed ≠ [] := by
  intro h0
  have := s.placed_ids hi
  rw [h0, List.map_nil] at this
  exact (s.insertion_spec hi).2.1 (List.map_eq_nil_iff.1 this.symm)

/-- A run is written at an end of a call that stays, or at the end of a text where none stays. -/
theorem point (s : Synthesis t ss pre rep post r) {i : Run × Part} (hi : i ∈ s.insertions) :
    (∃ x ∈ staying pre s.patchings post,
      place t pre rep post i.1 = x.site.start ∨ place t pre rep post i.1 = x.site.stop) ∨
      (staying pre s.patchings post = [] ∧ place t pre rep post i.1 = t.size) := by
  have hr : i.1 ∈ runs none s.shares [] := s.runs_eq ▸ List.mem_map.2 ⟨i, hi, rfl⟩
  obtain ⟨-, -, -, h4⟩ := slots_of_mem_runs hr s.order (by simp)
  unfold place
  rcases s.next_of_mem hi with ⟨q, hq, hj, hqo⟩ | ⟨hj, hqo⟩
  · refine .inl ⟨⟨q.old, q.edits⟩, patched_staying hq, .inl ?_⟩
    rw [hqo]
    rfl
  · cases hpost : post.head? with
    | some b =>
      refine .inl ⟨⟨b, []⟩, right_staying (List.mem_of_head? hpost), .inl ?_⟩
      rw [hqo, hpost]
      rfl
    | none =>
      rw [hpost] at hqo
      rcases s.previous_of_mem hi with ⟨p, hp, hk, hpo⟩ | ⟨hk, hpo⟩
      · refine .inl ⟨⟨p.old, p.edits⟩, patched_staying hp, .inr ?_⟩
        rw [hqo, hpo]
        rfl
      · cases hpre : pre.getLast? with
        | some a =>
          refine .inl ⟨⟨a, []⟩, left_staying (List.mem_of_getLast? hpre), .inr ?_⟩
          rw [hqo, hpo, hpre]
          rfl
        | none =>
          have hnone := h4 hk hj
          have hnil : s.patchings = [] := by
            refine List.eq_nil_iff_forall_not_mem.2 fun p hp => ?_
            have := hnone _ (s.mem_shares hp)
            simp at this
          refine .inr ⟨?_, ?_⟩
          · simp [staying, hnil, List.getLast?_eq_none_iff.1 hpre, List.head?_eq_none_iff.1 hpost]
          · rw [hqo, hpo, hpre]
            rfl

theorem apart (s : Synthesis t ss pre rep post r)
    (ha : Aligned t (pre ++ rep.reduceOption ++ post)) :
    s.insertions.Pairwise fun i j => place t pre rep post i.1 < place t pre rep post j.1 := by
  have hp := @pairwise_runs none s.shares [] s.order
  rw [← s.runs_eq, List.pairwise_map] at hp
  refine hp.imp_of_mem fun {i j} hi hj ⟨m, n, hm, hn, hmn⟩ => ?_
  rcases s.next_of_mem hi with ⟨p, hpm, hps, hpo⟩ | ⟨h, -⟩
  · rcases s.previous_of_mem hj with ⟨q, hqm, hqs, hqo⟩ | ⟨h, -⟩
    · rw [place_eq_of_next hpo]
      have h1 := s.previous_le_place ha hj hqo
      have h2 := (ha.spans p.old (by simp [s.mem_rep hpm])).liesIn.start_lt_stop
      have h3 := (ha.spans q.old (by simp [s.mem_rep hqm])).liesIn.start_lt_stop
      have hpq : p.slot ≤ q.slot := by
        rw [hps] at hm
        rw [hqs] at hn
        rwa [Option.some.inj hm, Option.some.inj hn]
      have hrep := ha.ordered
      rw [List.pairwise_append, List.pairwise_append] at hrep
      rcases Nat.lt_or_eq_of_le hpq with hlt | heq
      · have := stop_le_start_of_lt hrep.1.2.1 (s.old_eq p hpm) (s.old_eq q hqm) hlt
        omega
      · have hp' := s.old_eq p hpm
        rw [heq, s.old_eq q hqm, Option.some.injEq, Option.some.injEq] at hp'
        rw [← hp']
        omega
    · simp [h] at hn
  · simp [h] at hm

theorem sketch (s : Synthesis t ss pre rep post r)
    (ha : Aligned t (pre ++ rep.reduceOption ++ post))
    (hin : ∀ a ∈ rep.reduceOption, ∀ e ∈ a.params, e.2.start ≤ e.2.stop ∧ e.2.stop ≤ a.text.size) :
    Sketch t (goneSites rep (s.shares.map (·.2))) (staying pre s.patchings post)
      (s.insertions.map (·.2)) where
  gone_spans g hg := by
    obtain ⟨k, hk, -⟩ := mem_goneSites_iff.1 hg
    have := List.reduceOption_mem_iff.2 (List.mem_of_getElem? hk)
    exact ha.spans g (by simp [this])
  stay_spans := s.stay_spans ha
  ordered := s.stay_ordered ha
  beside := s.beside ha
  within x hx := by
    rcases mem_staying_iff.1 hx with ⟨a, hm, rfl⟩ | ⟨p, hp, rfl⟩ | ⟨a, hm, rfl⟩
    · exact fun e he => absurd he List.not_mem_nil
    · exact (s.patched p hp).inside (s.stay_spans ha _ hx).stop_eq (hin p.old (s.mem_rep hp))
    · exact fun e he => absurd he List.not_mem_nil
  placed p hp := by
    obtain ⟨i, hi, rfl⟩ := List.mem_map.1 hp
    exact s.placed_ne_nil hi
  point p hp := by
    obtain ⟨i, hi, rfl⟩ := List.mem_map.1 hp
    exact ⟨_, (s.insertion_spec hi).1, s.point hi⟩
  apart := by
    rw [List.pairwise_map]
    refine (s.apart ha).imp_of_mem fun {i j} hi hj hij => ?_
    simpa [(s.insertion_spec hi).1, (s.insertion_spec hj).1] using hij

theorem patchesTo (s : Synthesis t ss pre rep post r)
    (ha : Marked t (pre ++ rep.reduceOption ++ post)) {p : Patching} (hp : p ∈ s.patchings) :
    p.old.PatchesTo p.edits p.site := by
  have hmem : p.old ∈ pre ++ rep.reduceOption ++ post := by simp [s.mem_rep hp]
  have hst := (ha.spans p.old hmem).liesIn
  exact (s.patched p hp).patchesTo (ha.ranged p.old hmem) hst.ne_nil hst.stop_eq

theorem sketch_of_marked (s : Synthesis t ss pre rep post r)
    (ha : Marked t (pre ++ rep.reduceOption ++ post)) :
    Sketch t (goneSites rep (s.shares.map (·.2))) (staying pre s.patchings post)
      (s.insertions.map (·.2)) :=
  s.sketch ha.toAligned fun a hm => (ha.ranged a (by simp [hm])).inside_text

theorem stay_patched (s : Synthesis t ss pre rep post r)
    (ha : Marked t (pre ++ rep.reduceOption ++ post)) :
    ∀ x ∈ staying pre s.patchings post, ∃ site, x.site.PatchesTo x.edits site := by
  intro x hx
  rcases mem_staying_iff.1 hx with ⟨a, hm, rfl⟩ | ⟨p, hp, rfl⟩ | ⟨a, hm, rfl⟩
  · exact ⟨a, patchesTo_nil (s.stay_spans ha.toAligned _ hx).liesIn⟩
  · exact ⟨p.site, s.patchesTo ha hp⟩
  · exact ⟨a, patchesTo_nil (s.stay_spans ha.toAligned _ hx).liesIn⟩

theorem composable (s : Synthesis t ss pre rep post r)
    (ha : Marked t (pre ++ rep.reduceOption ++ post)) :
    Composable t (sketchParts t (goneSites rep (s.shares.map (·.2))) (staying pre s.patchings post)
      (s.insertions.map (·.2))) := (s.sketch_of_marked ha).composable (s.stay_patched ha)

theorem carries (s : Synthesis t ss pre rep post r)
    (ha : Marked t (pre ++ rep.reduceOption ++ post)) :
    Carries t r.edits (staying pre s.patchings post) := by
  have := (s.sketch_of_marked ha).carries (s.stay_patched ha)
  rwa [← s.parts_eq, ← s.edits_eq] at this

end Synthesis

theorem exists_synthesis_of_sites {steps : List Step} {sites : List CallSite} {t : Text} {e : RoutineEdit}
    {r : Rewrite} (hsites : steps.map (·.site) = sites.map some)
    (h : synthesize steps e (.byCount t) = .ok r) :
    e.index + e.count ≤ steps.length ∧
      ∃ s : Synthesis t e.steps (sites.take e.index)
        (((sites.drop e.index).take e.count).map some) (sites.drop (e.index + e.count)) r,
        ∀ p ∈ s.patchings, p.Continues ((steps.drop e.index).take e.count) := by
  obtain ⟨hrange, s, -, hcontinues⟩ := exists_synthesis_of_steps h
  have hpre : sitesOf (steps.take e.index) = sites.take e.index := sitesOf_eq (by
    simp only [List.map_take, hsites])
  have hpost : sitesOf (steps.drop (e.index + e.count)) = sites.drop (e.index + e.count) :=
    sitesOf_eq (by simp only [List.map_drop, hsites])
  have hrep : ((steps.drop e.index).take e.count).map (·.site)
      = ((sites.drop e.index).take e.count).map some := by
    simp only [List.map_take, List.map_drop, hsites]
  rw [← hpre, ← hpost, ← hrep]
  exact ⟨hrange, s, hcontinues⟩

theorem nonempty_synthesis {steps : List Step} {sites : List CallSite} {t : Text} {e : RoutineEdit}
    {r : Rewrite} (hsites : steps.map (·.site) = sites.map some)
    (h : synthesize steps e (.byCount t) = .ok r) :
    e.index + e.count ≤ steps.length ∧
      Nonempty (Synthesis t e.steps (sites.take e.index)
        (((sites.drop e.index).take e.count).map some) (sites.drop (e.index + e.count)) r) := by
  obtain ⟨hrange, s, -⟩ := exists_synthesis_of_sites hsites h
  exact ⟨hrange, ⟨s⟩⟩

/-- The edits that are asked of the text are in order, do not overlap and cut between characters. -/
theorem fit_of_synthesize {steps : List Step} {sites : List CallSite} {t : Text} {e : RoutineEdit}
    {r : Rewrite} (hsites : steps.map (·.site) = sites.map some) (ha : Anchored t sites)
    (h : synthesize steps e (.byCount t) = .ok r) : TextEdit.Fit 0 r.edits t := by
  obtain ⟨-, ⟨m⟩⟩ := nonempty_synthesis hsites h
  exact (m.carries ((parts_eq sites e.index e.count).symm ▸ ha.marked)).fit

end RoutineSync.Rewrite
