import RoutineSync.Proofs.Scan.Found
import RoutineSync.Sync.Rescan
/-!
A change of the text as a rescan sees it: the calls on the left that it does not touch, those that it
touches, and those on the right, with the text cut up accordingly.
-/
set_option autoImplicit false

namespace RoutineSync

/-- The steps of scanned calls, numbered from a supply, with the identities that they inherit. -/
def freshSteps (cs : List ScannedCall) (bias : Nat) (supply : IdSupply) (replaced : List Step) :
    List Step :=
  Rescan.inheritIds ((cs.zipIdx supply.next).map fun p => (p.1.shift bias).stepWith p.2) replaced

theorem map_freshSteps {α : Type} (f : Step → α) (hf : ∀ s id, f { s with id } = f s)
    (cs : List ScannedCall) (bias : Nat) (supply : IdSupply) (replaced : List Step) :
    (freshSteps cs bias supply replaced).map f = cs.map fun c => f ((c.shift bias).stepWith 0) := by
  rw [freshSteps, Rescan.map_inheritIds f hf, List.map_map]
  conv => rhs; rw [← List.zipIdx_map_fst supply.next cs, List.map_map]
  refine List.map_congr_left fun p _ => ?_
  exact hf ((p.1.shift bias).stepWith 0) _

theorem site_freshSteps (cs : List ScannedCall) (bias : Nat) (supply : IdSupply)
    (replaced : List Step) :
    (freshSteps cs bias supply replaced).map (·.site)
      = (cs.map fun c => (c.shift bias).site).map some := by
  rw [map_freshSteps (·.site) (fun _ _ => rfl), List.map_map]
  rfl

namespace Rescan

theorem run_plan_eq (steps : List Step) (c : TextChange) (t : Text) (supply : IdSupply) :
    (plan steps c t).run supply =
      let part := affected steps c t.size
      let fresh := ((Source.byCount t).access.fragment steps c : Id Text).run
      let touched := (Operations.plain.touched steps c).run
      (⟨⟨touched.1, touched.2, freshSteps (scan fresh) part.start supply
          ((steps.drop touched.1).take touched.2)⟩,
        touched.1 + touched.2, ⟨c.stop, c.delta⟩, ⟨part.start, part.start + fresh.size⟩⟩,
        ⟨supply.next + (scan fresh).length⟩) := by
  have hscan := run_scanSteps ((Source.byCount t).access.fragment steps c : Id Text).run
    (affected steps c t.size).start supply
  exact congrArg (fun scanned : List Step × IdSupply =>
    let part := affected steps c t.size
    let touched := (Operations.plain.touched steps c).run
    ((⟨⟨touched.1, touched.2, inheritIds scanned.1 ((steps.drop touched.1).take touched.2)⟩,
      touched.1 + touched.2, ⟨c.stop, c.delta⟩, ⟨part.start,
        part.start + ((Source.byCount t).access.fragment steps c : Id Text).run.size⟩⟩ :
      RescanPlan), scanned.2)) hscan

/-- The untouched calls on either side of a change, and the parts of the text: `fore` goes through
the last call on the left, `rear` starts with the first one on the right, `gone` is replaced. -/
structure Surroundings (t : Text) (c : TextChange) (sites : List CallSite) where
  left : List CallSite
  middle : List CallSite
  right : List CallSite
  fore : Text
  lead : Text
  gone : Text
  trail : Text
  rear : Text
  sites_eq : sites = left ++ middle ++ right
  start_lt_stop : ∀ s ∈ sites, s.start < s.stop
  text_eq : t = fore ++ lead ++ gone ++ trail ++ rear
  offset_eq : c.offset = (fore ++ lead).size
  stop_eq : c.stop = (fore ++ lead ++ gone).size
  left_lt : ∀ s ∈ left, s.stop < c.offset
  touches : ∀ s ∈ middle, c.offset ≤ s.stop ∧ s.start ≤ c.stop
  lt_right : ∀ s ∈ right, c.stop < s.start
  fore_size : fore.size = (left.getLast?.map (·.stop)).getD 0
  rear_place : (fore ++ lead ++ gone ++ trail).size = (right.head?.map (·.start)).getD t.size

theorem exists_split {sites : List CallSite} {a b : Nat} (h : sites.Pairwise fun s r => s.stop ≤ r.start)
    (hs : ∀ s ∈ sites, s.start < s.stop) :
    ∃ l m r, sites = l ++ m ++ r ∧ (∀ s ∈ l, s.stop < a) ∧ (∀ s ∈ m, a ≤ s.stop ∧ s.start ≤ b) ∧
      ∀ s ∈ r, b < s.start := by
  induction h with
  | nil => exact ⟨[], [], [], rfl, by simp⟩
  | @cons s rest hfirst _ ih =>
    have hlt := hs s List.mem_cons_self
    obtain ⟨l, m, r, rfl, hl, hm, hr⟩ := ih fun r hr => hs r (List.mem_cons_of_mem _ hr)
    by_cases hleft : s.stop < a
    · exact ⟨s :: l, m, r, rfl, by simpa using ⟨hleft, hl⟩, hm, hr⟩
    · -- nothing behind a call that is not on the left is on the left
      have hnil : l = [] := by
        rw [List.eq_nil_iff_forall_not_mem]
        intro x hx
        have h1 := hl x hx
        have h2 := hfirst x (by simp [hx])
        have h3 := hs x (by simp [hx])
        omega
      subst hnil
      by_cases hright : b < s.start
      · have hnil : m = [] := by
          rw [List.eq_nil_iff_forall_not_mem]
          intro x hx
          have h1 := hm x hx
          have h2 := hfirst x (by simp [hx])
          omega
        subst hnil
        exact ⟨[], [], s :: r, rfl, by simp, by simp, by simpa using ⟨hright, hr⟩⟩
      · exact ⟨[], s :: m, r, rfl, by simp, by simpa using ⟨by omega, hm⟩, hr⟩

theorem nonempty_surroundings {t : Text} {c : TextChange} {sites : List CallSite}
    (h : Anchored t sites) (hc : c.fits t = true) : Nonempty (Surroundings t c sites) := by
  simp only [TextChange.fits, Bool.and_eq_true] at hc
  obtain ⟨u, w, hu, hus⟩ := Text.isPlace_iff.1 hc.1
  obtain ⟨u', v, rfl, hvs⟩ := Text.isPlace_iff.1 hc.2
  have hab : c.offset ≤ c.stop := Nat.le_add_right _ _
  obtain ⟨gone, rfl, rfl⟩ := Text.exists_middle hu.symm (by omega)
  obtain ⟨l, m, r, hsites, hl, hm, hr⟩ := exists_split (a := c.offset) (b := c.stop) h.ordered
    (fun s hs => (h.stands s hs).start_lt_stop)
  have hfore : ∃ fore lead : Text, u = fore ++ lead ∧ fore.size = (l.getLast?.map (·.stop)).getD 0 := by
    cases hlast : l.getLast? with
    | none => exact ⟨[], u, rfl, rfl⟩
    | some s =>
      have hs := List.mem_of_getLast? hlast
      have hst := h.stands s (by simp [hsites, hs])
      obtain ⟨x, y, ht, hx⟩ := hst.stands
      have := hl s hs
      have hsize : (x ++ s.text).size = s.stop := by rw [Text.size_append, hst.stop_eq, hx]
      have ht' : x ++ s.text ++ y = u ++ (gone ++ v) := by rw [← ht, List.append_assoc]
      have hle : (x ++ s.text).size ≤ u.size := by omega
      obtain ⟨lead, rfl, -⟩ := Text.exists_middle ht' hle
      exact ⟨x ++ s.text, lead, rfl, hsize⟩
  have hrear : ∃ trail rear : Text, v = trail ++ rear ∧
      (u ++ gone ++ trail).size = (r.head?.map (·.start)).getD (u ++ gone ++ v).size := by
    cases hhead : r.head? with
    | none => exact ⟨v, [], by simp, rfl⟩
    | some s =>
      have hs := List.mem_of_head? hhead
      have hst := h.stands s (by simp [hsites, hs])
      obtain ⟨x, y, ht, hx⟩ := hst.stands
      have := hr s hs
      have ht' : u ++ gone ++ v = x ++ (s.text ++ y) := by rw [ht, List.append_assoc]
      have hle : (u ++ gone).size ≤ x.size := by omega
      obtain ⟨trail, rfl, rfl⟩ := Text.exists_middle ht' hle
      exact ⟨trail, s.text ++ y, rfl, hx⟩
  obtain ⟨fore, lead, rfl, hfs⟩ := hfore
  obtain ⟨trail, rear, rfl, hrs⟩ := hrear
  exact ⟨{
    left := l, middle := m, right := r, fore, lead, gone, trail, rear
    sites_eq := hsites
    start_lt_stop := fun s hs => (h.stands s hs).start_lt_stop
    text_eq := by simp only [List.append_assoc]
    offset_eq := hus.symm
    stop_eq := hvs.symm
    left_lt := hl
    touches := hm
    lt_right := hr
    fore_size := hfs
    rear_place := hrs }⟩

theorem written_eq {steps : List Step} {sites : List CallSite}
    (h : steps.map (·.site) = sites.map some) :
    written steps = sites.zipIdx.map fun p => (p.2, p.1) := by
  unfold written
  generalize 0 = n
  induction steps generalizing sites n with
  | nil =>
    rw [List.map_nil, eq_comm, List.map_eq_nil_iff] at h
    simp [h]
  | cons s steps ih =>
    obtain ⟨site, rest, rfl, hs, hr⟩ := List.map_eq_cons_iff.1 h.symm
    simp [← hs, ih hr.symm]

theorem filter_written {steps : List Step} {l m r : List CallSite} {f : CallSite → Bool}
    (h : steps.map (·.site) = (l ++ m ++ r).map some) (hl : ∀ s ∈ l, f s = false)
    (hm : ∀ s ∈ m, f s = true) (hr : ∀ s ∈ r, f s = false) :
    (written steps).filter (fun p => f p.2) = (m.zipIdx l.length).map fun p => (p.2, p.1) := by
  have hpart : ∀ (xs : List CallSite) (n : Nat) (b : Bool), (∀ s ∈ xs, f s = b) →
      (xs.zipIdx n).filter (fun p => f p.1) = if b then xs.zipIdx n else [] := by
    intro xs n b hxs
    cases b with
    | true =>
      rw [if_pos rfl, List.filter_eq_self]
      exact fun p hp => hxs p.1 (List.fst_mem_of_mem_zipIdx hp)
    | false =>
      rw [if_neg Bool.false_ne_true, List.filter_eq_nil_iff]
      intro p hp
      rw [hxs p.1 (List.fst_mem_of_mem_zipIdx hp)]
      exact Bool.false_ne_true
  rw [written_eq h, List.filter_map]
  show (((l ++ m ++ r).zipIdx).filter fun p => f p.1).map _ = _
  rw [List.zipIdx_append, List.zipIdx_append, List.filter_append, List.filter_append,
    hpart l _ _ hl, hpart m _ _ hm, hpart r _ _ hr]
  simp

namespace Surroundings
variable {t : Text} {c : TextChange} {sites : List CallSite} {steps : List Step}

theorem filter_left (s : Surroundings t c sites) (h : steps.map (·.site) = sites.map some) :
    (written steps).filter (fun p => p.2.stop < c.offset)
      = s.left.zipIdx.map fun p => (p.2, p.1) := by
  have hstop : c.offset ≤ c.stop := Nat.le_add_right _ _
  rw [s.sites_eq, ← List.nil_append s.left, List.append_assoc] at h
  refine filter_written h (f := fun a => decide (a.stop < c.offset)) (by simp)
    (fun a ha => by simpa using s.left_lt a ha) (fun a ha => ?_)
  rw [decide_eq_false_iff_not]
  rcases List.mem_append.1 ha with ha | ha
  · exact Nat.not_lt.2 (s.touches a ha).1
  · have h1 := s.lt_right a ha
    have h2 := s.start_lt_stop a (by rw [s.sites_eq]; simp [ha])
    omega

theorem filter_touches (s : Surroundings t c sites) (h : steps.map (·.site) = sites.map some) :
    (written steps).filter (fun p => Rescan.touches c p.2)
      = (s.middle.zipIdx s.left.length).map fun p => (p.2, p.1) := by
  have hstop : c.offset ≤ c.stop := Nat.le_add_right _ _
  rw [s.sites_eq] at h
  refine filter_written h (f := Rescan.touches c) (fun a ha => ?_) (fun a ha => ?_) fun a ha => ?_
  · have := s.left_lt a ha
    simp only [Rescan.touches, decide_eq_false_iff_not]
    omega
  · have h1 := s.touches a ha
    have h2 := s.start_lt_stop a (by rw [s.sites_eq]; simp [ha])
    simp only [Rescan.touches, decide_eq_true_eq]
    omega
  · have := s.lt_right a ha
    simp only [Rescan.touches, decide_eq_false_iff_not]
    omega

theorem touched_eq (s : Surroundings t c sites) (h : steps.map (·.site) = sites.map some) :
    (Operations.plain.touched steps c).run = (s.left.length, s.middle.length) := by
  unfold Operations.touched
  rw [s.filter_touches h, s.filter_left h]
  cases hm : s.middle with
  | nil =>
    cases hl : s.left.getLast? with
    | none => simp [List.getLast?_eq_none_iff.1 hl]
    | some a =>
      have hpos : 0 < s.left.length :=
        List.length_pos_iff.2 fun h0 => by simp [h0] at hl
      simp [hl]
      omega
  | cons a m =>
    simp only [List.head?_map, List.getLast?_map, List.head?_zipIdx, List.getLast?_zipIdx,
      List.head?_cons, List.getLast?_cons, Option.map_some, List.length_cons]
    refine Prod.ext rfl ?_
    show s.left.length + (m.length + 1) - 1 - s.left.length + 1 = m.length + 1
    omega

theorem length_le (s : Surroundings t c sites) (h : steps.map (·.site) = sites.map some) :
    s.left.length + s.middle.length ≤ steps.length := by
  have hlength := congrArg List.length (h.trans (congrArg (List.map some) s.sites_eq))
  simp only [List.length_map, List.length_append] at hlength
  omega

theorem affected_eq (s : Surroundings t c sites) (h : steps.map (·.site) = sites.map some) :
    affected steps c t.size = ⟨s.fore.size, (s.fore ++ s.lead ++ s.gone ++ s.trail).size⟩ := by
  have hleft := s.filter_left h
  have hstop : c.offset ≤ c.stop := Nat.le_add_right _ _
  rw [s.sites_eq, ← List.append_nil (s.left ++ s.middle ++ s.right)] at h
  have hright := filter_written h (f := fun a => decide (c.stop < a.start))
    (fun a ha => by
      rw [decide_eq_false_iff_not]
      rcases List.mem_append.1 ha with ha | ha
      · have h1 := s.left_lt a ha
        have h2 := s.start_lt_stop a (by rw [s.sites_eq]; simp [ha])
        omega
      · exact Nat.not_lt.2 (s.touches a ha).2)
    (fun a ha => by simpa using s.lt_right a ha) (by simp)
  have hfind := congrArg List.head? hright
  rw [List.head?_filter] at hfind
  unfold affected
  rw [hleft, hfind, s.fore_size, s.rear_place]
  simp only [List.getLast?_map, List.head?_map, List.getLast?_zipIdx, List.head?_zipIdx]
  cases s.left.getLast? <;> cases s.right.head? <;> rfl

theorem apply_eq (s : Surroundings t c sites) :
    c.apply t = s.fore ++ (s.lead ++ c.text ++ s.trail) ++ s.rear := by
  obtain ⟨l, m, r, fore, lead, gone, trail, rear, -, -, rfl, ho, hs, -⟩ := s
  simp only [TextChange.apply, ho, hs]
  rw [List.append_assoc _ trail rear, Text.after_append]
  rw [List.append_assoc _ gone, Text.before_append]
  simp only [List.append_assoc]

theorem fragment_eq (s : Surroundings t c sites) (h : steps.map (·.site) = sites.map some) :
    ((Source.byCount t).access.fragment steps c : Id Text).run = s.lead ++ c.text ++ s.trail := by
  show t.slice (affected steps c t.size).start c.offset ++ c.text
    ++ t.slice c.stop (affected steps c t.size).stop = _
  rw [s.affected_eq h]
  obtain ⟨l, m, r, fore, lead, gone, trail, rear, -, -, rfl, ho, hs, -⟩ := s
  simp only [ho, hs]
  have h1 := Text.slice_append fore lead (gone ++ trail ++ rear)
  have h2 := Text.slice_append (fore ++ lead ++ gone) trail rear
  simp only [Text.size_append, List.append_assoc, Nat.add_assoc] at h1 h2 ⊢
  rw [h1, h2]

theorem stop_le_fore (s : Surroundings t c sites) (h : Anchored t sites) {a : CallSite}
    (ha : a ∈ s.left) : a.stop ≤ s.fore.size := by
  obtain ⟨b, hb⟩ := List.getLast?_isSome.2 (List.ne_nil_of_mem ha) |> Option.isSome_iff_exists.1
  obtain ⟨init, hl⟩ := List.getLast?_eq_some_iff.1 hb
  rw [s.fore_size, hb]
  rw [hl, List.mem_append, List.mem_singleton] at ha
  rcases ha with ha | rfl
  · have ho := h.ordered
    rw [s.sites_eq, hl] at ho
    simp only [List.append_assoc, List.pairwise_append] at ho
    have := ho.2.2 a ha b (by simp)
    have := s.start_lt_stop b (by simp [s.sites_eq, hl])
    simp only [Option.map_some, Option.getD_some]
    omega
  · exact Nat.le_refl _

theorem rear_le_start (s : Surroundings t c sites) (h : Anchored t sites) {a : CallSite}
    (ha : a ∈ s.right) : (s.fore ++ s.lead ++ s.gone ++ s.trail).size ≤ a.start := by
  rw [s.rear_place]
  cases hr : s.right with
  | nil => simp [hr] at ha
  | cons b rest =>
    rw [hr, List.mem_cons] at ha
    simp only [List.head?_cons, Option.map_some, Option.getD_some]
    rcases ha with rfl | ha
    · exact Nat.le_refl _
    · have ho := h.ordered
      rw [s.sites_eq, hr, List.pairwise_append, List.pairwise_cons] at ho
      have := ho.2.1.1 a ha
      have := s.start_lt_stop b (by simp [s.sites_eq, hr])
      omega

/-- What stands before a change stays where it is. -/
theorem left_standsIn (s : Surroundings t c sites) (h : Anchored t sites) {a : CallSite}
    (ha : a ∈ s.left) : a.StandsIn (c.apply t) := by
  have hst := h.stands a (by simp [s.sites_eq, ha])
  have hle := s.stop_le_fore h ha
  have hfore : s.fore.StandsAt a.start a.text := by
    have := hst.stands
    rw [s.text_eq] at this
    simp only [List.append_assoc] at this
    exact this.of_left (hst.stop_eq ▸ hle)
  refine ⟨?_, hst.stop_eq, hst.proper⟩
  have := hfore.append [] (s.lead ++ c.text ++ s.trail ++ s.rear)
  rw [s.apply_eq]
  simpa using this

theorem right_standsIn (s : Surroundings t c sites) (h : Anchored t sites)
    (hs : (c.apply t).size ≤ maxPlace) {a : CallSite} (ha : a ∈ s.right) :
    let r := Drift.apply ⟨c.stop, c.delta⟩ a.range
    CallSite.StandsIn { a with start := r.start, stop := r.stop } (c.apply t) ∧
      (r.start : Int) = a.start + c.delta ∧ (r.stop : Int) = a.stop + c.delta := by
  intro r
  have hst := h.stands a (by simp [s.sites_eq, ha])
  have hle := s.rear_le_start h ha
  have hrear : s.rear.StandsAt (a.start - (s.fore ++ s.lead ++ s.gone ++ s.trail).size) a.text := by
    have := hst.stands
    rw [s.text_eq] at this
    exact this.of_right hle
  have hnew := hrear.append (s.fore ++ (s.lead ++ c.text ++ s.trail)) []
  rw [List.append_nil, ← s.apply_eq] at hnew
  have hend := hnew.le_size
  have hstop := hst.stop_eq
  have hlt := s.lt_right a ha
  have hlt' := s.start_lt_stop a (by simp [s.sites_eq, ha])
  have hlength : c.stop = c.offset + c.length := rfl
  have ho := s.offset_eq
  have hc := s.stop_eq
  simp only [Text.size_append] at hle hnew hend ho hc
  have hr : r = ⟨movePlace a.start c.delta, movePlace a.stop c.delta⟩ := by
    have h1 : c.stop ≤ a.start := Nat.le_of_lt hlt
    have h2 : c.stop < a.stop := Nat.lt_trans hlt hlt'
    simp [r, Drift.apply_eq, CallSite.range, h1, h2]
  have hstart : r.start = s.fore.size + (s.lead.size + c.text.size + s.trail.size)
      + (a.start - (s.fore.size + s.lead.size + s.gone.size + s.trail.size)) := by
    simp only [hr, movePlace, TextChange.delta]
    omega
  have hstop' : r.stop = r.start + a.text.size := by
    rw [hstart]
    simp only [hr, movePlace, TextChange.delta]
    omega
  refine ⟨⟨hstart ▸ hnew, hstop', hst.proper⟩, ?_, ?_⟩
  · simp only [TextChange.delta]
    omega
  · simp only [TextChange.delta]
    omega

theorem scanned_standsIn (s : Surroundings t c sites) {a : ScannedCall}
    (ha : a ∈ scan (s.lead ++ c.text ++ s.trail)) :
    (a.shift s.fore.size).site.StandsIn (c.apply t) ∧
      s.fore.size ≤ (a.shift s.fore.size).site.start ∧
      (a.shift s.fore.size).site.stop ≤ (s.fore ++ (s.lead ++ c.text ++ s.trail)).size := by
  obtain ⟨h1, h2, h3⟩ := (foundIn_of_mem_scan ha).standsAt
  have hst : a.site.StandsIn (s.lead ++ c.text ++ s.trail) := ⟨h1, h2, h3⟩
  have hle := hst.stop_le_size
  have := hst.append s.fore s.rear
  rw [← s.apply_eq] at this
  simp only [ScannedCall.shift, Nat.add_comm a.site.start, Nat.add_comm a.site.stop]
  refine ⟨this, by omega, ?_⟩
  rw [Text.size_append s.fore]
  omega

/-- The sites after a change: those on the left, those scanned, and those on the right, moved. -/
def newSites (s : Surroundings t c sites) : List CallSite :=
  s.left ++ (scan (s.lead ++ c.text ++ s.trail)).map (fun a => (a.shift s.fore.size).site)
    ++ s.right.map fun a =>
      let r := Drift.apply ⟨c.stop, c.delta⟩ a.range
      { a with start := r.start, stop := r.stop }

theorem anchored_newSites (s : Surroundings t c sites) (h : Anchored t sites)
    (hs : (c.apply t).size ≤ maxPlace) : Anchored (c.apply t) s.newSites := by
  constructor
  · intro a ha
    simp only [newSites, List.mem_append, List.mem_map] at ha
    rcases ha with (ha | ⟨b, hb, rfl⟩) | ⟨b, hb, rfl⟩
    · exact s.left_standsIn h ha
    · exact (s.scanned_standsIn hb).1
    · exact (s.right_standsIn h hs hb).1
  · have hright : ∀ a ∈ s.right, ((s.fore ++ (s.lead ++ c.text ++ s.trail)).size : Int)
        ≤ (Drift.apply ⟨c.stop, c.delta⟩ a.range).start := by
      intro a ha
      have h1 := (s.right_standsIn h hs ha).2.1
      have h2 := s.rear_le_start h ha
      have hlength : c.stop = c.offset + c.length := rfl
      have ho := s.offset_eq
      have hc := s.stop_eq
      simp only [Text.size_append, TextChange.delta] at h1 h2 ho hc ⊢
      omega
    have ho := h.ordered
    rw [s.sites_eq, List.pairwise_append, List.pairwise_append] at ho
    rw [newSites, List.pairwise_append, List.pairwise_append, List.pairwise_map, List.pairwise_map]
    refine ⟨⟨ho.1.1, ?_, ?_⟩, ?_, ?_⟩
    · refine (pairwise_scan _).imp fun hab => ?_
      simpa [ScannedCall.shift] using hab
    · simp only [List.mem_map]
      rintro a ha _ ⟨b, hb, rfl⟩
      exact Nat.le_trans (s.stop_le_fore h ha) (s.scanned_standsIn hb).2.1
    · refine ho.2.1.imp_of_mem fun {a b} ha hb hab => ?_
      have h1 := (s.right_standsIn h hs ha).2.2
      have h2 := (s.right_standsIn h hs hb).2.1
      simp only
      omega
    · simp only [List.mem_append, List.mem_map]
      rintro a (ha | ⟨b, hb, rfl⟩) _ ⟨d, hd, rfl⟩
      · have h1 := s.stop_le_fore h ha
        have h2 := hright d hd
        rw [Text.size_append] at h2
        simp only
        omega
      · have h1 := (s.scanned_standsIn hb).2.2
        have h2 := hright d hd
        simp only
        omega

/-- What a rescan makes of a change: the steps of its surroundings are scanned anew. -/
theorem run_plan (s : Surroundings t c sites) (h : steps.map (·.site) = sites.map some)
    (supply : IdSupply) :
    (plan steps c t).run supply =
      (⟨⟨s.left.length, s.middle.length, freshSteps (scan (s.lead ++ c.text ++ s.trail)) s.fore.size
          supply ((steps.drop s.left.length).take s.middle.length)⟩,
        s.left.length + s.middle.length, ⟨c.stop, c.delta⟩,
        ⟨s.fore.size, s.fore.size + (s.lead ++ c.text ++ s.trail).size⟩⟩,
        ⟨supply.next + (scan (s.lead ++ c.text ++ s.trail)).length⟩) := by
  rw [run_plan_eq, s.affected_eq h, s.fragment_eq h, s.touched_eq h]

end Surroundings

end Rescan

end RoutineSync
