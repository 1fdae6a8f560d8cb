import RoutineSync.Proofs.Sync.Writable
import RoutineSync.Proofs.Wire.Form
/-!
Round trips of actions. What stands under an action's parameters is read by its kind; a kind without
parameters is written, and read, without them.
-/
set_option autoImplicit false

namespace RoutineSync

namespace Action.Finite

variable {a : Action}

theorem of_mem (ha : a.Finite) (name : String) {x : Binary64}
    (h : (name, Value.float x) ∈ a.params) : x.isFinite = true := ha _ h x rfl

theorem of_entry (ha : a.Finite) (name : String) {x : Option Binary64}
    (h : ∀ e ∈ Action.entry name Value.float x, e ∈ a.params) : ∀ y ∈ x, y.isFinite = true := by
  rintro y rfl
  exact ha _ (h _ (List.mem_singleton_self _)) y rfl

end Action.Finite

namespace Wire

open Json Layout

theorem Json.Record.Holds.poseOf? {layoutOf : String → Layout} {unwritten : List String}
    {p : Pose} {rest hs : Record} (h : Holds layoutOf unwritten (poseFields p ++ rest) hs)
    (hx : p.x.isFinite = true) (hy : p.y.isFinite = true) (hheading : p.heading.isFinite = true)
    (hlayout : layoutOf "x" = .plain ∧ layoutOf "y" = .plain ∧ layoutOf "heading" = .plain) :
    Wire.poseOf? hs = some p := by
  obtain ⟨hlx, hly, hlheading⟩ := hlayout
  rw [Wire.poseOf?]
  simp only [Option.bind_eq_bind]
  rw [h.required Form.roundTrips_real hx hlx rfl, h.required Form.roundTrips_real hy hly rfl,
    h.required Form.roundTrips_real hheading hlheading rfl]
  rfl

/-- The parameters of an action are read back from every spelling of them. -/
theorem withParams?_of_respells {a : Action} (ha : a.Finite) {params j : Json}
    (hparams : paramsJson? a = some params) (hj : (Layout.record [] []).Respells params j) :
    withParams? a.kind j = some a := by
  cases a with
  | setPose p radians =>
    cases hparams
    obtain ⟨hs, rfl, h⟩ := hj.exists_record (by simp [poseFields])
    have hpose : poseOf? hs = some p :=
      h.poseOf? (ha.of_mem "x" (by simp [Action.params])) (ha.of_mem "y" (by simp [Action.params]))
        (ha.of_mem "heading" (by simp [Action.params])) ⟨rfl, rfl, rfl⟩
    rw [Action.kind, withParams?, h.record? (by simp [poseFields])]
    simp only [Option.bind_eq_bind, Option.bind_some]
    rw [hpose, h.optional Form.roundTrips_bool rfl (fun _ _ => trivial) rfl rfl]
    rfl
  | moveTo x y timeout maxSpeed log =>
    cases hparams
    obtain ⟨hs, rfl, h⟩ := hj.exists_record (by simp)
    have hx : x.isFinite = true := ha.of_mem "x" (by simp [Action.params])
    have hy : y.isFinite = true := ha.of_mem "y" (by simp [Action.params])
    have hspeed := ha.of_entry "maxSpeed" (x := maxSpeed) fun e he => by simp [Action.params, he]
    rw [Action.kind, withParams?, h.record? (by simp)]
    simp only [Option.bind_eq_bind, Option.bind_some]
    rw [h.required Form.roundTrips_real hx rfl rfl, h.required Form.roundTrips_real hy rfl rfl,
      h.required Form.roundTrips_int64 trivial rfl rfl,
      h.optional Form.roundTrips_real rfl hspeed rfl rfl,
      h.optional Form.roundTrips_bool rfl (fun _ _ => trivial) rfl rfl]
    rfl
  | turnTo x y timeout reversed maxSpeed log =>
    cases hparams
    obtain ⟨hs, rfl, h⟩ := hj.exists_record (by simp)
    have hx : x.isFinite = true := ha.of_mem "x" (by simp [Action.params])
    have hy : y.isFinite = true := ha.of_mem "y" (by simp [Action.params])
    have hspeed := ha.of_entry "maxSpeed" (x := maxSpeed) fun e he => by simp [Action.params, he]
    rw [Action.kind, withParams?, h.record? (by simp)]
    simp only [Option.bind_eq_bind, Option.bind_some]
    rw [h.required Form.roundTrips_real hx rfl rfl, h.required Form.roundTrips_real hy rfl rfl,
      h.required Form.roundTrips_int64 trivial rfl rfl,
      h.optional Form.roundTrips_bool rfl (fun _ _ => trivial) rfl rfl,
      h.optional Form.roundTrips_real rfl hspeed rfl rfl,
      h.optional Form.roundTrips_bool rfl (fun _ _ => trivial) rfl rfl]
    rfl
  | follow filePath timeout lookahead reverse maxSpeed log =>
    cases hparams
    obtain ⟨hs, rfl, h⟩ := hj.exists_record (by simp)
    have hlookahead : lookahead.isFinite = true := ha.of_mem "lookahead" (by simp [Action.params])
    have hspeed := ha.of_entry "maxSpeed" (x := maxSpeed) fun e he => by simp [Action.params, he]
    rw [Action.kind, withParams?, h.record? (by simp)]
    simp only [Option.bind_eq_bind, Option.bind_some]
    rw [h.required Form.roundTrips_text trivial rfl rfl,
      h.required Form.roundTrips_int64 trivial rfl rfl,
      h.required Form.roundTrips_real hlookahead rfl rfl,
      h.optional Form.roundTrips_bool rfl (fun _ _ => trivial) rfl rfl,
      h.optional Form.roundTrips_real rfl hspeed rfl rfl,
      h.optional Form.roundTrips_bool rfl (fun _ _ => trivial) rfl rfl]
    rfl
  | wait milliseconds =>
    cases hparams
    obtain ⟨hs, rfl, h⟩ := hj.exists_record (by simp)
    rw [Action.kind, withParams?, h.record? (by simp)]
    simp only [Option.bind_eq_bind, Option.bind_some]
    rw [h.required Form.roundTrips_int64 trivial rfl rfl]
    rfl
  | _ => cases hparams

theorem bare?_of_paramsJson? {a : Action} (h : paramsJson? a = none) : bare? a.kind = some a := by
  cases a <;> first | rfl | cases h

theorem isReadable_params {a : Action} {params : Json} (h : paramsJson? a = some params) :
    params.isReadable = true := by
  cases a <;> cases h <;>
    simp [isReadable, haveReadable, poseFields, isReadable_ofNullable isReadable_bool,
      isReadable_ofNullable isReadable_ofReal]

theorem isReadable_action (a : Action) : (actionJson a).isReadable = true := by
  cases h : paramsJson? a with
  | none => simp [actionJson, h, kindJson, ofString, isReadable, haveReadable]
  | some params =>
    simp [actionJson, h, kindJson, ofString, isReadable, haveReadable, isReadable_params h]

namespace Form

/-- Every number of an action is finite. -/
def action (held : Bool) : Form Action :=
  ⟨.record ["params"] [("params", .record [] [])], actionJson, action? held, Action.Finite⟩

theorem roundTrips_action (held : Bool) : (action held).RoundTrips := by
  intro a ha j hj
  have hj : (action held).layout.Respells (actionJson a) j := hj
  show action? held j = some a
  cases hparams : paramsJson? a with
  | none =>
    rw [actionJson, hparams] at hj
    obtain ⟨hs, rfl, h⟩ := hj.exists_record (by simp)
    have hclear : Record.isClear hs ["type", "params"] = true :=
      Record.isClear_iff.2 fun n hn => h.once (by simpa using hn)
    rw [action?, hclear]
    simp only [guard_true, Option.bind_eq_bind]
    rw [h.required (roundTrips_kind held) trivial rfl rfl]
    simp [h.absent (List.mem_singleton_self _) rfl, bare?_of_paramsJson? hparams]
  | some params =>
    rw [actionJson, hparams] at hj
    obtain ⟨hs, rfl, h⟩ := hj.exists_record (by simp)
    have hclear : Record.isClear hs ["type", "params"] = true :=
      Record.isClear_iff.2 fun n hn => h.once (.inl (by simpa using hn))
    obtain ⟨ps, hps, hspell⟩ := h.found (show List.lookup "params" _ = some params from rfl)
    rw [action?, hclear]
    simp only [guard_true, Option.bind_eq_bind]
    rw [h.required (roundTrips_kind held) trivial rfl rfl]
    have hreadable := hspell.isReadable (isReadable_params hparams)
    simp [hps, hreadable, withParams?_of_respells ha hparams hspell]

end Form

end Wire

end RoutineSync
