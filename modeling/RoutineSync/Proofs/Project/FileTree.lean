import RoutineSync.Project.Files
/-!
Reading what was written. Making directories takes nothing away from a tree, and a path leads where
it did as long as the directories on its way are there. So a file that was written is read back, and
what a failed write leaves is read as before.
-/
set_option autoImplicit false

namespace RoutineSync.FileTree

variable {t u : FileTree}

theorem lookup_entry (p q : Place) (e : FileEntry) (entries : List (Place × FileEntry)) :
    ((p, e) :: entries).lookup q = if q = p then some e else entries.lookup q := by
  rw [List.lookup_cons]
  by_cases h : q = p
  · rw [if_pos h, beq_iff_eq.2 h]
  · rw [if_neg h, beq_eq_false_iff_ne.2 h]

theorem lookup_insert (place q : Place) (e : FileEntry) (entries : List (Place × FileEntry)) :
    (insert place e entries).lookup q = if q = place then some e else entries.lookup q := by
  induction entries with
  | nil => exact lookup_entry place q e []
  | cons f r ih =>
    obtain ⟨p, f⟩ := f
    rw [insert]
    split
    · rw [lookup_entry]
    · split
      · rename_i hp
        subst hp
        rw [lookup_entry, lookup_entry]
        by_cases hq : q = p <;> simp [hq]
      · rename_i hp
        rw [lookup_entry, lookup_entry, ih]
        by_cases hq : q = place
        · rw [if_pos hq, if_pos hq, if_neg (hq ▸ Ne.symm hp)]
        · rw [if_neg hq, if_neg hq]

theorem entryAt_put (t : FileTree) (place q : Place) (e : FileEntry) :
    FileTree.entry? (t.put place e) q
      = if q = [] then some .directory else if q = place then some e else t.entry? q := by
  unfold entry?
  split
  · rfl
  · exact lookup_insert place q e t.entries

theorem isDirectory_iff {place : Place} :
    t.isDirectory place = true ↔ t.entry? place = some .directory :=
  beq_iff_eq

/-- What stands in `t` stands in `u` too. -/
structure Extends (u t : FileTree) : Prop where
  entry : ∀ {place e}, t.entry? place = some e → u.entry? place = some e
  working : u.working = t.working

theorem Extends.refl (t : FileTree) : t.Extends t := ⟨fun h => h, rfl⟩

theorem Extends.trans {v : FileTree} (h : v.Extends u) (h' : u.Extends t) : v.Extends t :=
  ⟨fun he => h.entry (h'.entry he), h.working.trans h'.working⟩

theorem extends_put {place : Place} {e : FileEntry} (h : t.entry? place = none) :
    (t.put place e).Extends t := by
  refine ⟨fun {q f} hf => ?_, rfl⟩
  rw [entryAt_put]
  split
  · rename_i hq
    rw [hq, entry?, if_pos rfl] at hf
    exact hf
  · split
    · rename_i hq
      rw [hq, h] at hf
      exact absurd hf (by simp)
    · exact hf

theorem extends_makeWay (t : FileTree) (place : Place) (parts : List String) :
    (t.makeWay place parts).Extends t := by
  induction parts generalizing t place with
  | nil => exact .refl t
  | cons part parts ih =>
    unfold makeWay
    split
    · dsimp only
      split
      · rename_i h
        rw [Bool.and_eq_true, Option.isNone_iff_eq_none] at h
        exact (ih _ _).trans (extends_put h.1)
      · exact ih _ _
    · exact .refl t

theorem extends_makeDirectory (t : FileTree) (path : String) : (t.makeDirectory path).Extends t := by
  unfold makeDirectory
  split
  · exact extends_makeWay t _ _
  · exact .refl t

/-- Only the directories on a path decide where it leads. -/
theorem follow?_of_directories (h : ∀ place, t.isDirectory place = true → u.isDirectory place = true)
    {place q : Place} {parts : List String} (hq : t.follow? place parts = some q) :
    u.follow? place parts = some q := by
  induction parts generalizing place with
  | nil => exact hq
  | cons part parts ih =>
    rw [follow?] at hq ⊢
    split at hq
    · rename_i hplace
      rw [if_pos (h place hplace)]
      exact ih hq
    · exact absurd hq (by simp)

theorem locate?_of_directories (h : ∀ place, t.isDirectory place = true → u.isDirectory place = true)
    (hworking : u.working = t.working) {path : String} {q : Place} (hq : t.locate? path = some q) :
    u.locate? path = some q := by
  unfold locate? at hq ⊢
  split at hq
  · rename_i hpath
    rw [if_pos hpath, start, hworking]
    exact follow?_of_directories h hq
  · exact absurd hq (by simp)

theorem read_eq_ok_iff {path : String} {contents : Text} :
    t.read path = .ok contents ↔ t.at? path = some (.text contents) := by
  unfold read
  split <;> simp_all

theorem Extends.read {path : String} {contents : Text} (h : u.Extends t)
    (hread : t.read path = .ok contents) : u.read path = .ok contents := by
  rw [read_eq_ok_iff, at?, Option.bind_eq_some_iff] at hread ⊢
  obtain ⟨place, hplace, hentry⟩ := hread
  refine ⟨place, locate?_of_directories (fun q hq => ?_) h.working hplace, h.entry hentry⟩
  exact isDirectory_iff.2 (h.entry (isDirectory_iff.1 hq))

theorem read_of_write {path : String} {contents : Text} (h : t.write path contents = (true, u)) :
    u.read path = .ok contents := by
  unfold write at h
  generalize t.makeDirectory (Path.parent path) = v at h
  dsimp only at h
  split at h
  · rename_i place hplace
    split at h
    · exact absurd (congrArg Prod.fst h) (by simp)
    · rename_i hfile
      obtain rfl : v.put place (.text contents) = u := congrArg Prod.snd h
      rw [Bool.or_eq_true, not_or] at hfile
      -- the place of the file is no directory, so the way to it is as before
      have hput : ∀ q, v.isDirectory q = true →
          (v.put place (.text contents)).isDirectory q = true := by
        intro q hq
        rw [isDirectory_iff, entryAt_put]
        split
        · rfl
        · rw [if_neg (by rintro rfl; exact hfile.1 hq)]
          exact isDirectory_iff.1 hq
      have hne : place ≠ [] := by
        rintro rfl
        exact hfile.1 (isDirectory_iff.2 rfl)
      rw [read_eq_ok_iff, at?, locate?_of_directories hput rfl hplace, Option.bind_some, entryAt_put,
        if_neg hne, if_pos rfl]
  · exact absurd (congrArg Prod.fst h) (by simp)

/-- A write that fails may leave directories behind. -/
theorem extends_of_write {path : String} {contents : Text} (h : t.write path contents = (false, u)) :
    u.Extends t := by
  unfold write at h
  dsimp only at h
  split at h
  · split at h
    · obtain rfl : t.makeDirectory (Path.parent path) = u := congrArg Prod.snd h
      exact extends_makeDirectory t _
    · exact absurd (congrArg Prod.fst h) (by simp)
  · obtain rfl : t.makeDirectory (Path.parent path) = u := congrArg Prod.snd h
    exact extends_makeDirectory t _

section Source
variable {project : String} {path : RelativePath} {contents : Text}

theorem readSource_eq_ok_iff :
    t.readSource project path = .ok contents ↔ t.read (path.under project) = .ok contents := by
  unfold readSource
  split <;> simp_all

theorem readSource_of_writeSource (h : t.writeSource project path contents = (.ok (), u)) :
    u.readSource project path = .ok contents := by
  rw [readSource_eq_ok_iff]
  rw [writeSource] at h
  cases hw : t.write (path.under project) contents with
  | mk written v =>
    rw [hw] at h
    obtain ⟨hwritten, rfl⟩ := Prod.mk.inj h
    cases written with
    | true => exact read_of_write hw
    | false => exact absurd hwritten (by simp)

/-- A write that fails leaves every file as it was. -/
theorem readSource_of_writeSource_error {e : FileError} {other : RelativePath} {held : Text}
    (h : t.writeSource project path contents = (.error e, u))
    (hread : t.readSource project other = .ok held) : u.readSource project other = .ok held := by
  rw [readSource_eq_ok_iff] at hread ⊢
  rw [writeSource] at h
  cases hw : t.write (path.under project) contents with
  | mk written v =>
    rw [hw] at h
    obtain ⟨hwritten, rfl⟩ := Prod.mk.inj h
    cases written with
    | true => exact absurd hwritten (by simp)
    | false => exact (extends_of_write hw).read hread

end Source

end RoutineSync.FileTree
