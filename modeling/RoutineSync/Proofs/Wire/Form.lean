import RoutineSync.Proofs.Action.NameMap
import RoutineSync.Proofs.Call.Arguments
import RoutineSync.Proofs.Wire.Spelling
import RoutineSync.Wire.Message
/-!
How values go over the wire. A form says how the values of a type are written and read, and it
round-trips when every proper value is read back from every spelling of what is written for it. A
field of a record round-trips by the form of its values.
-/
set_option autoImplicit false

namespace RoutineSync.Wire

open Json Layout

theorem Json.name?_ofString (held : Bool) (s : String) : (ofString s).name? held = some s :=
  congrArg some String.ofList_toList

theorem Json.real?_ofReal {x : Binary64} (h : x.isFinite = true) : (ofReal x).real? = some x := by
  rw [ofReal, if_pos h, real?]

theorem Json.int64?_ofInt64 (n : Int64) : (ofInt64 n).int64? = some n := by
  rw [ofInt64]
  split
  · rw [int64?, Int64.ofInt_toInt]
  · rename_i hn
    have hle : ((n.toInt.toNat : Nat) : Int) ≤ Int64.maxValue.toInt := by
      rw [Int.toNat_of_nonneg (by omega)]
      exact Int64.toInt_le n
    rw [int64?, if_pos hle, ← Int64.ofInt_eq_ofNat, Int.toNat_of_nonneg (by omega),
      Int64.ofInt_toInt]

theorem id?_idJson (id : ActionId) : id? (idJson id) = some id := by
  rw [id?, idJson, text?, Option.bind_some, idOfText?_idText]

theorem kind?_kindJson (held : Bool) (k : ActionKind) : kind? held (kindJson k) = some k := by
  rw [kind?, kindJson, name?_ofString, Option.bind_some, ActionKind.ofName?_name]

theorem origin?_originJson (held : Bool) (o : Origin) : origin? held (originJson o) = some o := by
  rw [origin?, originJson, name?_ofString, Option.bind_some]
  cases o <;> decide

theorem mechanism?_mechanismJson (m : Mechanism) : mechanism? (mechanismJson m) = some m := by
  rw [mechanism?, mechanismJson, name?_ofString, Option.bind_some, Mechanism.ofName?_name]

/-- How the values of a type go over the wire. -/
structure Form (α : Type) where
  layout : Layout
  write : α → Json
  read? : Json → Option α
  /-- The values that the type has room for, with finite numbers. -/
  Proper : α → Prop

namespace Form

variable {α : Type}

/-- Every proper value is read back from every spelling of it. -/
def RoundTrips (f : Form α) : Prop :=
  ∀ x, f.Proper x → ∀ j, f.layout.Respells (f.write x) j → f.read? j = some x

theorem roundTrips_plain {write : α → Json} {read? : Json → Option α} {Proper : α → Prop}
    (h : ∀ x, Proper x → read? (write x) = some x) :
    (mk .plain write read? Proper).RoundTrips := by
  intro x hx j hj
  rw [show j = write x from Respells.plain_iff.1 hj]
  exact h x hx

def bool : Form Bool := ⟨.plain, .bool, bool?, fun _ => True⟩

def text : Form Text := ⟨.plain, .text, text?, fun _ => True⟩

def natural : Form Nat := ⟨.plain, .natural, natural?, (· ≤ maxPlace)⟩

def int64 : Form Int64 := ⟨.plain, ofInt64, int64?, fun _ => True⟩

def real : Form Binary64 := ⟨.plain, ofReal, real?, fun x => x.isFinite = true⟩

def id : Form ActionId := ⟨.plain, idJson, id?, fun _ => True⟩

def origin (held : Bool) : Form Origin := ⟨.plain, originJson, origin? held, fun _ => True⟩

def kind (held : Bool) : Form ActionKind := ⟨.plain, kindJson, kind? held, fun _ => True⟩

def mechanism : Form Mechanism := ⟨.plain, mechanismJson, mechanism?, fun _ => True⟩

def list (f : Form α) : Form (List α) :=
  ⟨.list f.layout, ofList f.write, list? f.read?, fun xs => ∀ x ∈ xs, f.Proper x⟩

theorem roundTrips_bool : bool.RoundTrips := roundTrips_plain fun _ _ => rfl

theorem roundTrips_text : text.RoundTrips := roundTrips_plain fun _ _ => rfl

theorem roundTrips_natural : natural.RoundTrips := roundTrips_plain fun _ hn => if_pos hn

theorem roundTrips_int64 : int64.RoundTrips := roundTrips_plain fun n _ => int64?_ofInt64 n

theorem roundTrips_real : real.RoundTrips := roundTrips_plain fun _ hx => real?_ofReal hx

theorem roundTrips_id : id.RoundTrips := roundTrips_plain fun n _ => id?_idJson n

theorem roundTrips_origin (held : Bool) : (origin held).RoundTrips :=
  roundTrips_plain fun o _ => origin?_originJson held o

theorem roundTrips_kind (held : Bool) : (kind held).RoundTrips :=
  roundTrips_plain fun k _ => kind?_kindJson held k

theorem roundTrips_mechanism : mechanism.RoundTrips :=
  roundTrips_plain fun m _ => mechanism?_mechanismJson m

theorem RoundTrips.list {l : Layout} {write : α → Json} {read? : Json → Option α}
    {Proper : α → Prop} (hf : (mk l write read? Proper).RoundTrips) :
    (mk (.list l) (ofList write) (list? read?) fun xs => ∀ x ∈ xs, Proper x).RoundTrips := by
  intro xs hxs j hj
  have hread : ∀ js : List Json, js.length = xs.length →
      (∀ (i : Nat) (x : α) (k : Json), xs[i]? = some x → js[i]? = some k →
        l.Respells (write x) k) → list? read? (.array js) = some xs := by
    intro js hlength hjs
    rw [list?, CallShape.mapM_eq_some_iff]
    refine List.ext_getElem (by simp [hlength]) fun i hi hi' => ?_
    rw [List.length_map] at hi hi'
    rw [List.getElem_map, List.getElem_map]
    exact hf _ (hxs _ (List.getElem_mem hi')) _
      (hjs i _ _ (List.getElem?_eq_getElem hi') (List.getElem?_eq_getElem hi))
  cases hj with
  | same =>
    refine hread _ (List.length_map _) fun i x k hx hk => ?_
    rw [List.getElem?_map, hx] at hk
    exact Option.some.inj hk ▸ .same
  | list hlength h =>
    refine hread _ (by rw [← hlength, List.length_map]) fun i x k hx hk => h i _ _ ?_ hk
    rw [List.getElem?_map, hx]
    rfl

end Form

namespace Json.Record.Holds

variable {α : Type} {layoutOf : String → Layout} {unwritten : List String} {fs hs : Record}

theorem required (h : Holds layoutOf unwritten fs hs) {l : Layout} {write : α → Json}
    {read? : Json → Option α} {Proper : α → Prop} (hf : (Form.mk l write read? Proper).RoundTrips)
    {name : String} {x : α} (hx : Proper x) (hlayout : layoutOf name = l)
    (hwrite : fs.lookup name = some (write x)) : hs.required? name read? = some x := by
  obtain ⟨w, hw, hspell⟩ := h.found hwrite
  rw [required?, hw, Option.bind_some]
  exact hf x hx w (hlayout ▸ hspell)

theorem optional (h : Holds layoutOf unwritten fs hs) {l : Layout} {write : α → Json}
    {read? : Json → Option α} {Proper : α → Prop} (hf : (Form.mk l write read? Proper).RoundTrips)
    (hnull : read? .null = none) {name : String} {x : Option α} (hx : ∀ a ∈ x, Proper a)
    (hlayout : layoutOf name = l) (hwrite : fs.lookup name = some (ofNullable write x)) :
    hs.optional? name read? = some x := by
  obtain ⟨w, hw, hspell⟩ := h.found hwrite
  rw [optional?, hw]
  cases x with
  | none => rw [Respells.null_iff.1 hspell]; rfl
  | some a =>
    have hread : read? w = some a := hf a (hx a rfl) w (hlayout ▸ hspell)
    have hne : w ≠ .null := by
      rintro rfl
      rw [hnull] at hread
      exact absurd hread (by simp)
    show nullable? read? w = some (some a)
    unfold nullable?
    split
    · exact absurd rfl hne
    · rw [hread, Option.map_some]

end Json.Record.Holds

namespace Form

variable {j : Json}

/-- A range holds its own fields only. -/
def range : Form ByteRange :=
  ⟨.map .plain, rangeJson, range?, fun r => r.start ≤ maxPlace ∧ r.stop ≤ maxPlace⟩

theorem roundTrips_range : range.RoundTrips := by
  rintro r ⟨hstart, hstop⟩ j hj
  obtain ⟨spell, hs, rfl, hspell, hperm⟩ := hj.exists_map
  have h : Record.Holds (fun _ => .plain) [] _ hs :=
    .of_perm (by simp) hspell (fun _ hf => absurd hf List.not_mem_nil)
      ((List.append_nil _).symm ▸ hperm)
  have hall : (hs.all fun f => f.1 == "start" || f.1 == "end") = true := by
    rw [List.all_eq_true]
    intro f hf
    obtain ⟨g, hg, rfl⟩ := List.mem_map.1 (hperm.mem_iff.2 hf)
    rcases List.mem_pair.1 hg with rfl | rfl <;> rfl
  show range? (.object hs) = some r
  rw [range?, h.record? (by simp)]
  simp only [Option.bind_eq_bind, Option.bind_some, hall, guard_true]
  rw [h.required roundTrips_natural hstart rfl rfl, h.required roundTrips_natural hstop rfl rfl]
  rfl

/-- A map has its entries in the order of their names. -/
def ranges : Form (NameMap ByteRange) :=
  ⟨.map range.layout, rangesJson, ranges?, fun m => m.Sorted ∧ ∀ e ∈ m, range.Proper e.2⟩

theorem roundTrips_ranges : ranges.RoundTrips := by
  rintro m ⟨hsorted, hm⟩ j hj
  obtain ⟨spell, hs, rfl, hspell, hperm⟩ := hj.exists_map
  let entry? : String × Json → Option (String × ByteRange) := fun f =>
    (range? f.2).map fun r => (f.1, r)
  have hread : ((m.map fun e => (e.1, rangeJson e.2)).map fun f => (f.1, spell f)).mapM entry?
      = some m := by
    rw [CallShape.mapM_eq_some_iff, List.map_map, List.map_map]
    refine List.map_congr_left fun e he => ?_
    have hr : range? (spell (e.1, rangeJson e.2)) = some e.2 :=
      roundTrips_range e.2 (hm e he) _ (hspell _ (List.mem_map_of_mem he))
    show (range? (spell (e.1, rangeJson e.2))).map (fun r => (e.1, r)) = some e
    rw [hr, Option.map_some]
  obtain ⟨es, hes, hperm⟩ := CallShape.mapM_of_perm hperm hread
  show (hs.mapM entry?).map NameMap.ofList = some m
  rw [hes, Option.map_some, hsorted.ofList_of_perm hperm]

def site : Form CallSite :=
  ⟨.record [] [("param_spans", ranges.layout)], siteJson, site?, fun s =>
    s.start ≤ maxPlace ∧ s.stop ≤ maxPlace ∧ ranges.Proper s.params⟩

theorem roundTrips_site : site.RoundTrips := by
  rintro s ⟨hstart, hstop, hparams⟩ j hj
  obtain ⟨hs, rfl, h⟩ := hj.exists_record (by simp)
  show site? (.object hs) = some s
  rw [site?, h.record? (by simp)]
  simp only [Option.bind_eq_bind, Option.bind_some]
  rw [h.required roundTrips_natural hstart rfl rfl, h.required roundTrips_natural hstop rfl rfl,
    h.required roundTrips_text trivial rfl rfl, h.required roundTrips_ranges hparams rfl rfl]
  rfl

end Form

end RoutineSync.Wire
