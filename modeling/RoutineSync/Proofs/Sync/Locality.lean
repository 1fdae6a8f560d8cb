import RoutineSync.Proofs.Routine.Lists
import RoutineSync.Proofs.Scan.Seam
import RoutineSync.Proofs.Sync.Rescan
/-!
In plain text a rescan of the surroundings of a change finds what a scan of the whole text finds
there, and the calls on either side are found again where they stand then.
-/
set_option autoImplicit false

namespace RoutineSync

theorem eq_of_split {α : Type} {p : α → Prop} {a b a' b' : List α} (h : a ++ b = a' ++ b')
    (ha : ∀ x ∈ a, p x) (hb : ∀ x ∈ b, ¬p x) (ha' : ∀ x ∈ a', p x) (hb' : ∀ x ∈ b', ¬p x) :
    a = a' ∧ b = b' := by
  rcases List.append_eq_append_iff.1 h with ⟨m, rfl, rfl⟩ | ⟨m, rfl, rfl⟩
  · cases m with
    | nil => simp
    | cons x m => exact absurd (ha' x (by simp)) (hb x (by simp))
  · cases m with
    | nil => simp
    | cons x m => exact absurd (ha x (by simp)) (hb' x (by simp))

namespace Rescan.Surroundings
variable {t : Text} {c : TextChange}

theorem fore_closed (v : Surroundings t c ((scan t).map (·.site))) :
    ∀ a ∈ v.fore.getLast?, a = ';' := by
  intro a ha
  have hsize := v.fore_size
  cases hl : v.left.getLast? with
  | none =>
    rw [hl] at hsize
    rw [Text.size_eq_zero_iff.1 hsize] at ha
    exact absurd ha (by simp)
  | some s =>
    rw [hl] at hsize
    have hsize : v.fore.size = s.stop := hsize
    have hst := (anchored_scan t).stands s (by
      rw [v.sites_eq]
      simp [List.mem_of_getLast? hl])
    have hstands : (v.fore ++ (v.lead ++ v.gone ++ v.trail ++ v.rear)).StandsAt s.start s.text := by
      have := hst.stands
      rw [v.text_eq] at this
      simpa only [List.append_assoc] using this
    obtain ⟨u, w, hu, hus⟩ := hstands.of_left (by rw [hsize, hst.stop_eq])
    have hw : w = [] := by
      have h1 := congrArg Text.size hu
      have h2 := hst.stop_eq
      rw [Text.size_append, Text.size_append, hus, hsize, h2] at h1
      exact Text.size_eq_zero_iff.1 (by omega)
    rw [hu, hw, List.append_nil, List.getLast?_append_of_ne_nil u hst.proper.ne_nil,
      hst.proper.closes] at ha
    exact (Option.some.inj ha).symm

theorem seam_rear (v : Surroundings t c ((scan t).map (·.site))) (x : Text) :
    Scan.Seam (v.lead ++ x ++ v.trail) v.rear := by
  have hplace := v.rear_place
  cases hr : v.right.head? with
  | none =>
    rw [hr] at hplace
    have hsize : (v.fore ++ v.lead ++ v.gone ++ v.trail).size = t.size := hplace
    have hrear : v.rear = [] := by
      have := congrArg Text.size v.text_eq
      rw [Text.size_append _ v.rear, hsize] at this
      exact Text.size_eq_zero_iff.1 (by omega)
    rw [hrear]
    exact .empty
  | some a =>
    rw [hr] at hplace
    have hplace : (v.fore ++ v.lead ++ v.gone ++ v.trail).size = a.start := hplace
    have hright := List.mem_of_head? hr
    have hmem : a ∈ (scan t).map (·.site) := by
      rw [v.sites_eq]
      exact List.mem_append_right _ hright
    obtain ⟨d, hd, rfl⟩ := List.mem_map.1 hmem
    have hst := (anchored_scan t).stands _ hmem
    -- the first call on the right was found at the start of a word, behind the same text
    obtain ⟨kind, lead, rest, m, ht, hm, hc, hw⟩ := foundIn_of_mem_scan hd
    obtain ⟨_, _, _, -, -, rfl⟩ := ScannedCall.ofMatch?_eq_some_iff.1 hc
    obtain ⟨rfl, rfl⟩ := Text.append_inj_of_size (v.text_eq.symm.trans ht) hplace
    have htrail : v.trail ≠ [] := by
      intro h0
      have h1 : c.stop < (v.fore ++ v.lead ++ v.gone ++ v.trail).size := v.lt_right _ hright
      rw [h0, List.append_nil, ← v.stop_eq] at h1
      exact Nat.lt_irrefl _ h1
    refine .opening ?_ (hst.proper.opens.trans (CallShape.prefix_of_match? hm))
    rw [Text.endsWord_append htrail] at hw ⊢
    exact hw

/-- A scan finds the calls of the three parts of a text, whatever stands at the change. -/
theorem scan_around (v : Surroundings t c ((scan t).map (·.site))) {x : Text}
    (hp : (v.fore ++ (v.lead ++ x ++ v.trail) ++ v.rear).Plain) :
    scan (v.fore ++ (v.lead ++ x ++ v.trail) ++ v.rear)
      = scan v.fore ++ (scan (v.lead ++ x ++ v.trail)).map (ScannedCall.shift v.fore.size)
        ++ (scan v.rear).map
          (ScannedCall.shift (v.fore ++ (v.lead ++ x ++ v.trail)).size) := by
  rw [List.append_assoc] at hp
  rw [List.append_assoc v.fore, scan_append hp (.closed v.fore_closed),
    scan_append hp.right (v.seam_rear x), List.map_append, List.map_map, ← List.append_assoc]
  congr 2
  refine funext fun d => ?_
  simp [ScannedCall.shift, Nat.add_comm, Nat.add_left_comm]

theorem scan_eq (v : Surroundings t c ((scan t).map (·.site))) (hp : t.Plain) :
    scan t = scan v.fore
      ++ (scan (v.lead ++ v.gone ++ v.trail)).map (ScannedCall.shift v.fore.size)
      ++ (scan v.rear).map
        (ScannedCall.shift (v.fore ++ (v.lead ++ v.gone ++ v.trail)).size) := by
  have ht : t = v.fore ++ (v.lead ++ v.gone ++ v.trail) ++ v.rear := by
    conv => lhs; rw [v.text_eq]
    simp only [List.append_assoc]
  have := v.scan_around (x := v.gone) (ht ▸ hp)
  rwa [← ht] at this

theorem fore_le_start {sites : List CallSite} (v : Surroundings t c sites) (h : Anchored t sites)
    {s : CallSite} (hs : s ∈ v.middle ++ v.right) : v.fore.size ≤ s.start := by
  rw [v.fore_size]
  cases hl : v.left.getLast? with
  | none => exact Nat.zero_le _
  | some a =>
    have ho := h.ordered
    rw [v.sites_eq, List.append_assoc, List.pairwise_append] at ho
    exact ho.2.2 a (List.mem_of_getLast? hl) s hs

theorem stop_le_rear {sites : List CallSite} (v : Surroundings t c sites) (h : Anchored t sites)
    {s : CallSite} (hs : s ∈ v.left ++ v.middle) :
    s.stop ≤ (v.fore ++ v.lead ++ v.gone ++ v.trail).size := by
  rw [v.rear_place]
  cases hr : v.right.head? with
  | none =>
    have hmem : s ∈ sites := by
      rw [v.sites_eq]
      exact List.mem_append_left _ hs
    exact (h.stands s hmem).stop_le_size
  | some a =>
    have ho := h.ordered
    rw [v.sites_eq, List.pairwise_append] at ho
    exact ho.2.2 s hs a (List.mem_of_head? hr)

theorem stop_le_of_mem_scan {x : Text} {d : ScannedCall} (hd : d ∈ scan x) :
    d.site.start < d.site.stop ∧ d.site.stop ≤ x.size := by
  have hst := (anchored_scan x).stands _ (List.mem_map_of_mem hd)
  exact ⟨hst.start_lt_stop, hst.stop_le_size⟩

/-- The untouched calls on the left are those that a scan finds there. -/
theorem left_eq (v : Surroundings t c ((scan t).map (·.site))) (hp : t.Plain) :
    v.left = (scan v.fore).map (·.site) := by
  have hsites := v.sites_eq
  conv at hsites => lhs; rw [v.scan_eq hp]
  rw [List.append_assoc (scan v.fore), List.map_append, List.append_assoc v.left] at hsites
  refine (eq_of_split (p := fun s => s.start < v.fore.size) hsites ?_ ?_ ?_ ?_).1.symm
  · intro s hs
    obtain ⟨d, hd, rfl⟩ := List.mem_map.1 hs
    have := stop_le_of_mem_scan hd
    omega
  · intro s hs
    simp only [List.map_append, List.map_map, List.mem_append, List.mem_map, Function.comp] at hs
    rcases hs with ⟨d, -, rfl⟩ | ⟨d, -, rfl⟩
    · simp only [ScannedCall.shift]
      omega
    · simp only [ScannedCall.shift, Text.size_append]
      omega
  · intro s hs
    have h1 := v.start_lt_stop s (by rw [v.sites_eq]; simp [hs])
    have h2 := v.stop_le_fore (anchored_scan t) hs
    omega
  · intro s hs
    have := v.fore_le_start (anchored_scan t) hs
    omega

theorem right_eq (v : Surroundings t c ((scan t).map (·.site))) (hp : t.Plain) :
    v.right = (scan v.rear).map fun d =>
      (d.shift (v.fore ++ (v.lead ++ v.gone ++ v.trail)).size).site := by
  have hsites := v.sites_eq
  conv at hsites => lhs; rw [v.scan_eq hp]
  rw [List.map_append, List.map_map] at hsites
  have hsize : (v.fore ++ v.lead ++ v.gone ++ v.trail).size
      = (v.fore ++ (v.lead ++ v.gone ++ v.trail)).size := by
    simp only [List.append_assoc]
  refine (eq_of_split (p := fun s => s.start < (v.fore ++ v.lead ++ v.gone ++ v.trail).size)
    hsites ?_ ?_ ?_ ?_).2.symm
  · intro s hs
    simp only [List.map_append, List.map_map, List.mem_append, List.mem_map, Function.comp] at hs
    rw [hsize, Text.size_append v.fore]
    rcases hs with ⟨d, hd, rfl⟩ | ⟨d, hd, rfl⟩
    · have := stop_le_of_mem_scan hd
      omega
    · have := stop_le_of_mem_scan hd
      simp only [ScannedCall.shift]
      omega
  · intro s hs
    obtain ⟨d, -, rfl⟩ := List.mem_map.1 hs
    rw [hsize]
    simp only [Function.comp, ScannedCall.shift]
    omega
  · intro s hs
    have h1 := v.start_lt_stop s (by rw [v.sites_eq]; exact List.mem_append_left _ hs)
    have h2 := v.stop_le_rear (anchored_scan t) hs
    omega
  · intro s hs
    have := v.rear_le_start (anchored_scan t) hs
    omega

/-- A call on the right drifts to where a scan finds it. -/
theorem moved_eq (v : Surroundings t c ((scan t).map (·.site))) (hp : t.Plain)
    (hs : (c.apply t).size ≤ maxPlace) {d : ScannedCall} (hd : d ∈ scan v.rear) :
    Drift.moved ⟨c.stop, c.delta⟩ (d.shift (v.fore ++ (v.lead ++ v.gone ++ v.trail)).size).site
      = (d.shift (v.fore ++ (v.lead ++ c.text ++ v.trail)).size).site := by
  have hmem : (d.shift (v.fore ++ (v.lead ++ v.gone ++ v.trail)).size).site ∈ v.right := by
    rw [v.right_eq hp]
    exact List.mem_map_of_mem hd
  obtain ⟨-, h1, h2⟩ := v.right_standsIn (anchored_scan t) hs hmem
  have hlength : c.stop = c.offset + c.length := rfl
  have ho := v.offset_eq
  have hc := v.stop_eq
  simp only [ScannedCall.shift, Text.size_append, TextChange.delta] at h1 h2 ho hc
  simp only [Drift.moved, ScannedCall.shift, CallSite.mk.injEq, Text.size_append,
    TextChange.delta, and_true]
  omega

end Rescan.Surroundings

end RoutineSync
