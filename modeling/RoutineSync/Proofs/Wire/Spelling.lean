import Mathlib.Data.List.Nodup
import Mathlib.Data.List.Perm.Basic
import RoutineSync.Wire.Field
/-!
Spellings of one value: the fields of objects in any order, and in records further fields that no
reader knows. A layout says which objects of a written value are records. The main statement is that
a record in another spelling holds each written field once, under its name.
-/
set_option autoImplicit false

namespace RoutineSync.Wire

open Json

/-- What is known of a written value. -/
inductive Layout where
  | plain
  | list (item : Layout)
  /-- An object that holds its own fields only, all of one layout. -/
  | map (value : Layout)
  /-- An object whose unknown fields are passed over. Its reader knows the names that are written and
  the `unwritten` ones, which are left out at times. Fields that are not listed are plain. -/
  | record (unwritten : List String) (fields : List (String × Layout))

namespace Layout

def field (fields : List (String × Layout)) (name : String) : Layout :=
  (fields.lookup name).getD .plain

/-- The second value is the first one in some spelling. -/
inductive Respells : Layout → Json → Json → Prop
  | same {l : Layout} {j : Json} : Respells l j j
  | list {l : Layout} {js ks : List Json} (hlength : js.length = ks.length)
      (h : ∀ (i : Nat) (j k : Json), js[i]? = some j → ks[i]? = some k → Respells l j k) :
      Respells (.list l) (.array js) (.array ks)
  | map {l : Layout} {fs hs : Record} (spell : String × Json → Json)
      (h : ∀ f ∈ fs, Respells l f.2 (spell f))
      (hs_perm : (fs.map fun f => (f.1, spell f)).Perm hs) :
      Respells (.map l) (.object fs) (.object hs)
  | record {unwritten : List String} {ls : List (String × Layout)} {fs hs : Record}
      (spell : String × Json → Json) (extra : Record)
      (h : ∀ f ∈ fs, Respells (field ls f.1) f.2 (spell f))
      (hextra : ∀ f ∈ extra, f.1 ∉ fs.map Prod.fst ∧ f.1 ∉ unwritten ∧ f.2.isReadable = true)
      (hs_perm : ((fs.map fun f => (f.1, spell f)) ++ extra).Perm hs) :
      Respells (.record unwritten ls) (.object fs) (.object hs)

end Layout

namespace Json

theorem areReadable_iff {js : List Json} :
    areReadable js = true ↔ ∀ j ∈ js, j.isReadable = true := by
  induction js with
  | nil => simp [areReadable]
  | cons j js ih => simp [areReadable, ih]

theorem haveReadable_iff {fs : Record} :
    haveReadable fs = true ↔ ∀ f ∈ fs, f.2.isReadable = true := by
  induction fs with
  | nil => simp [haveReadable]
  | cons f fs ih => obtain ⟨n, j⟩ := f; simp [haveReadable, ih]

theorem isReadable_array {js : List Json} :
    (array js).isReadable = true ↔ ∀ j ∈ js, j.isReadable = true := areReadable_iff

theorem isReadable_object {fs : Record} :
    (object fs).isReadable = true ↔ ∀ f ∈ fs, f.2.isReadable = true := haveReadable_iff

@[simp] theorem isReadable_bool (b : Bool) : (Json.bool b).isReadable = true := rfl

@[simp] theorem isReadable_natural (n : Nat) : (Json.natural n).isReadable = true := rfl

@[simp] theorem isReadable_ofReal (x : Binary64) : (ofReal x).isReadable = true := by
  unfold ofReal; split <;> rfl

@[simp] theorem isReadable_ofInt64 (n : Int64) : (ofInt64 n).isReadable = true := by
  unfold ofInt64; split <;> rfl

theorem isReadable_ofNullable {α : Type} {write : α → Json} (h : ∀ a, (write a).isReadable = true)
    (x : Option α) : (ofNullable write x).isReadable = true := by
  cases x with
  | none => rfl
  | some a => exact h a

theorem isReadable_ofList {α : Type} {write : α → Json} (h : ∀ a, (write a).isReadable = true)
    (xs : List α) : (ofList write xs).isReadable = true := by
  rw [ofList, isReadable_array, List.forall_mem_map]
  exact fun a _ => h a

end Json

namespace Layout.Respells

theorem plain_iff {j k : Json} : Respells .plain j k ↔ k = j := by
  constructor
  · rintro ⟨⟩; rfl
  · rintro rfl; exact .same

theorem null_iff {l : Layout} {k : Json} : Respells l .null k ↔ k = .null := by
  constructor
  · rintro ⟨⟩; rfl
  · rintro rfl; exact .same

/-- Whatever can be taken in whole can be in every spelling. -/
theorem isReadable {l : Layout} {j k : Json} (h : Respells l j k) (hj : j.isReadable = true) :
    k.isReadable = true := by
  induction h with
  | same => exact hj
  | @list l js ks hlength _ ih =>
    rw [isReadable_array] at hj ⊢
    intro k hk
    obtain ⟨i, hi, rfl⟩ := List.getElem_of_mem hk
    have hij : i < js.length := hlength ▸ hi
    exact ih i js[i] ks[i] (List.getElem?_eq_getElem hij) (List.getElem?_eq_getElem hi)
      (hj _ (List.getElem_mem hij))
  | @map l fs hs spell _ hperm ih =>
    rw [isReadable_object] at hj ⊢
    intro f hf
    obtain ⟨g, hg, rfl⟩ := List.mem_map.1 (hperm.mem_iff.2 hf)
    exact ih g hg (hj g hg)
  | @record _ _ fs hs spell extra _ hextra hperm ih =>
    rw [isReadable_object] at hj ⊢
    intro f hf
    rcases List.mem_append.1 (hperm.mem_iff.2 hf) with hf | hf
    · obtain ⟨g, hg, rfl⟩ := List.mem_map.1 hf
      exact ih g hg (hj g hg)
    · exact (hextra f hf).2.2

end Layout.Respells

namespace Json.Record

variable {r fs hs : Record} {name : String} {v : Json}

def Once (r : Record) (name : String) : Prop := (r.filter fun f => f.1 == name).length ≤ 1

theorem isClear_iff {names : List String} : r.isClear names = true ↔ ∀ n ∈ names, r.Once n := by
  simp [isClear, Once]

theorem length_filter_name (r : Record) (name : String) :
    (r.filter fun f => f.1 == name).length = (r.map Prod.fst).count name := by
  rw [List.count, List.countP_map, List.countP_eq_length_filter]
  rfl

theorem once_of_nodup (h : (r.map Prod.fst).Nodup) (name : String) : r.Once name := by
  rw [Once, length_filter_name]
  exact List.nodup_iff_count_le_one.1 h name

theorem lookup_eq_some_of_mem (h : r.Once name) (hv : (name, v) ∈ r) :
    r.lookup name = some v := by
  induction r with
  | nil => exact absurd hv List.not_mem_nil
  | cons f r ih =>
    obtain ⟨n, w⟩ := f
    rw [Once, List.filter_cons] at h
    rcases List.mem_cons.1 hv with heq | hv
    · obtain ⟨rfl, rfl⟩ := Prod.mk.inj heq
      exact List.lookup_cons_self
    · have hmem : (name, v) ∈ r.filter fun f => f.1 == name :=
        List.mem_filter.2 ⟨hv, beq_self_eq_true _⟩
      by_cases hn : n = name
      · have hpos := List.length_pos_of_mem hmem
        rw [if_pos (beq_iff_eq.2 hn), List.length_cons] at h
        omega
      · rw [List.lookup_cons, beq_eq_false_iff_ne.2 (Ne.symm hn)]
        exact ih (by simpa [Once, hn] using h) hv

theorem mem_of_lookup (h : r.lookup name = some v) : (name, v) ∈ r := by
  obtain ⟨l, s, rfl, -⟩ := List.lookup_eq_some_iff.1 h
  simp

theorem lookup_eq_none (h : name ∉ r.map Prod.fst) : r.lookup name = none := by
  rw [List.lookup_eq_none_iff]
  intro f hf
  rw [bne_iff_ne]
  rintro rfl
  exact h (List.mem_map_of_mem hf)

theorem lookup_erase {other : String} (h : name ≠ other) :
    (r.filter fun f => f.1 != other).lookup name = r.lookup name := by
  induction r with
  | nil => rfl
  | cons f r ih =>
    obtain ⟨n, w⟩ := f
    rw [List.filter_cons]
    by_cases hn : n = other
    · subst hn
      simp [List.lookup_cons, beq_eq_false_iff_ne.2 h, ih]
    · simp [hn, List.lookup_cons, ih]

/-- The fields `hs` hold the written fields `fs` in some spelling, whatever else they hold. -/
structure Holds (layoutOf : String → Layout) (unwritten : List String) (fs hs : Record) : Prop where
  found : ∀ {name v}, fs.lookup name = some v →
    ∃ w, hs.lookup name = some w ∧ (layoutOf name).Respells v w
  absent : ∀ {name}, name ∈ unwritten → fs.lookup name = none → hs.lookup name = none
  once : ∀ {name}, name ∈ fs.map Prod.fst ∨ name ∈ unwritten → hs.Once name

namespace Holds

variable {layoutOf : String → Layout} {unwritten : List String}

theorem self (h : (fs.map Prod.fst).Nodup) : Holds layoutOf unwritten fs fs where
  found hv := ⟨_, hv, .same⟩
  absent _ hnone := hnone
  once _ := once_of_nodup h _

theorem of_perm (hnodup : (fs.map Prod.fst).Nodup) {spell : String × Json → Json} {extra : Record}
    (h : ∀ f ∈ fs, (layoutOf f.1).Respells f.2 (spell f))
    (hextra : ∀ f ∈ extra, f.1 ∉ fs.map Prod.fst ∧ f.1 ∉ unwritten)
    (hperm : ((fs.map fun f => (f.1, spell f)) ++ extra).Perm hs) :
    Holds layoutOf unwritten fs hs := by
  have hnames : (fs.map fun f => (f.1, spell f)).map Prod.fst = fs.map Prod.fst := by
    rw [List.map_map]; rfl
  have honce : ∀ {name}, name ∈ fs.map Prod.fst ∨ name ∈ unwritten → hs.Once name := by
    intro name hname
    have hnone : extra.filter (fun f => f.1 == name) = [] := by
      rw [List.filter_eq_nil_iff]
      intro f hf heq
      rw [beq_iff_eq.1 heq |>.symm] at hname
      exact hname.elim (hextra f hf).1 (hextra f hf).2
    rw [Once, ← (hperm.filter _).length_eq, List.filter_append, hnone, List.append_nil]
    exact once_of_nodup (hnames ▸ hnodup) name
  refine ⟨fun {name v} hv => ?_, fun {name} hname hnone => ?_, honce⟩
  · have hmem := mem_of_lookup hv
    refine ⟨spell (name, v), lookup_eq_some_of_mem (honce (.inl (List.mem_map_of_mem hmem))) ?_,
      h _ hmem⟩
    exact hperm.subset
      (List.mem_append_left _ (List.mem_map_of_mem (f := fun f => (f.1, spell f)) hmem))
  · refine lookup_eq_none fun hmem => ?_
    obtain ⟨f, hf, rfl⟩ := List.mem_map.1 hmem
    rcases List.mem_append.1 (hperm.mem_iff.2 hf) with hf | hf
    · obtain ⟨g, hg, rfl⟩ := List.mem_map.1 hf
      exact absurd (lookup_eq_some_of_mem (once_of_nodup hnodup g.1) hg) (by simp [hnone])
    · exact (hextra f hf).2 hname

theorem erase (h : Holds layoutOf unwritten fs hs) (other : String) :
    Holds layoutOf unwritten (fs.filter fun f => f.1 != other)
      (hs.filter fun f => f.1 != other) := by
  have herased : ∀ r : Record, (r.filter fun f => f.1 != other).lookup other = none := fun r =>
    lookup_eq_none fun hmem => by simp at hmem
  refine ⟨fun {name v} hv => ?_, fun {name} hname hnone => ?_, fun {name} hname => ?_⟩
  · have hne : name ≠ other := by
      rintro rfl
      rw [herased] at hv
      exact absurd hv (by simp)
    rw [lookup_erase hne] at hv ⊢
    exact h.found hv
  · by_cases hne : name = other
    · rw [hne, herased]
    · rw [lookup_erase hne] at hnone ⊢
      exact h.absent hname hnone
  · have hsub := (List.filter_sublist (p := fun f : String × Json => f.1 != other) (l := hs)).filter
      fun f => f.1 == name
    exact Nat.le_trans hsub.length_le
      (h.once (hname.imp_left fun hmem => (List.filter_sublist.map Prod.fst).subset hmem))

theorem record? {names : List String} (h : Holds layoutOf unwritten fs hs)
    (hnames : ∀ n ∈ names, n ∈ fs.map Prod.fst ∨ n ∈ unwritten) :
    Json.record? names (.object hs) = some hs :=
  if_pos (isClear_iff.2 fun n hn => h.once (hnames n hn))

end Holds

end Json.Record

namespace Layout.Respells

variable {fs : Record} {j : Json}

theorem exists_map {l : Layout} (h : Respells (.map l) (.object fs) j) :
    ∃ (spell : String × Json → Json) (hs : Record), j = .object hs ∧
      (∀ f ∈ fs, l.Respells f.2 (spell f)) ∧ (fs.map fun f => (f.1, spell f)).Perm hs := by
  cases h with
  | same => exact ⟨Prod.snd, fs, rfl, fun f _ => .same, by rw [List.map_id']⟩
  | map spell h hperm => exact ⟨spell, _, rfl, h, hperm⟩

theorem exists_record {unwritten : List String} {ls : List (String × Layout)}
    (h : Respells (.record unwritten ls) (.object fs) j) (hnodup : (fs.map Prod.fst).Nodup) :
    ∃ hs, j = .object hs ∧ Record.Holds (field ls) unwritten fs hs := by
  cases h with
  | same => exact ⟨fs, rfl, .self hnodup⟩
  | record spell extra h hextra hperm =>
    exact ⟨_, rfl, .of_perm hnodup h (fun f hf => ⟨(hextra f hf).1, (hextra f hf).2.1⟩) hperm⟩

end Layout.Respells

end RoutineSync.Wire
