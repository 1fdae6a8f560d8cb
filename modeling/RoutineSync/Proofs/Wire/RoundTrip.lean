import RoutineSync.Proofs.Wire.Action
/-!
Round trips of steps, edits, events, changes, messages and waypoints.
-/
set_option autoImplicit false

namespace RoutineSync.Wire

open Json Layout

theorem isReadable_site (s : CallSite) : (siteJson s).isReadable = true := by
  have hranges : (rangesJson s.params).isReadable = true := by
    rw [rangesJson, isReadable_object, List.forall_mem_map]
    intro e _
    simp [rangeJson, isReadable, haveReadable]
  simp [siteJson, isReadable, haveReadable, hranges]

theorem isReadable_step (s : Step) : (stepJson s).isReadable = true := by
  simp [stepJson, idJson, isReadable, haveReadable, isReadable_action,
    isReadable_ofNullable isReadable_site]

theorem isReadable_message (m : ViewMessage) : (messageJson m).isReadable = true := by
  cases m <;>
    simp [messageJson, stepsJson, originJson, ofString, isReadable, haveReadable,
      isReadable_ofNullable isReadable_natural, isReadable_ofList isReadable_step]

namespace Form

def step (held : Bool) : Form Step :=
  ⟨.record [] [("action", (action held).layout), ("source", site.layout)], stepJson, step? held,
    fun s => (action held).Proper s.action ∧ ∀ t ∈ s.site, site.Proper t⟩

theorem roundTrips_step (held : Bool) : (step held).RoundTrips := by
  rintro s ⟨haction, hsite⟩ j hj
  obtain ⟨hs, rfl, h⟩ := hj.exists_record (by simp)
  show step? held (.object hs) = some s
  rw [step?, h.record? (by simp)]
  simp only [Option.bind_eq_bind, Option.bind_some]
  rw [h.required roundTrips_id trivial rfl rfl,
    h.required (roundTrips_action held) haction rfl rfl,
    h.optional roundTrips_site rfl hsite rfl rfl]
  rfl

def steps (held : Bool) : Form (List Step) :=
  ⟨(step held).list.layout, stepsJson, steps? held, (step held).list.Proper⟩

theorem roundTrips_steps (held : Bool) : (steps held).RoundTrips := (roundTrips_step held).list

def edit : Form RoutineEdit :=
  ⟨.record [] [("actions", (steps false).layout)], editJson, edit?, fun e =>
    e.index ≤ maxPlace ∧ e.count ≤ maxPlace ∧ (steps false).Proper e.steps⟩

theorem roundTrips_edit : edit.RoundTrips := by
  rintro e ⟨hindex, hcount, hsteps⟩ j hj
  obtain ⟨hs, rfl, h⟩ := hj.exists_record (by simp)
  show edit? (.object hs) = some e
  rw [edit?, h.record? (by simp)]
  simp only [Option.bind_eq_bind, Option.bind_some]
  rw [h.required roundTrips_natural hindex rfl rfl, h.required roundTrips_natural hcount rfl rfl,
    h.required (roundTrips_steps false) hsteps rfl rfl]
  rfl

def event : Form RoutineEvent :=
  ⟨.record [] [("removed", (steps false).layout), ("inserted", (steps false).layout)], eventJson,
    event?, fun e => e.seq ≤ maxPlace ∧ e.index ≤ maxPlace ∧ (steps false).Proper e.removed ∧
      (steps false).Proper e.inserted⟩

theorem roundTrips_event : event.RoundTrips := by
  rintro e ⟨hseq, hindex, hremoved, hinserted⟩ j hj
  obtain ⟨hs, rfl, h⟩ := hj.exists_record (by simp)
  show event? (.object hs) = some e
  rw [event?, h.record? (by simp)]
  simp only [Option.bind_eq_bind, Option.bind_some]
  rw [h.required roundTrips_natural hseq rfl rfl,
    h.required (roundTrips_origin false) trivial rfl rfl,
    h.required roundTrips_natural hindex rfl rfl,
    h.required (roundTrips_steps false) hremoved rfl rfl,
    h.required (roundTrips_steps false) hinserted rfl rfl]
  rfl

def change : Form TextChange :=
  ⟨.record [] [], changeJson, change?, fun c => c.offset ≤ maxPlace ∧ c.length ≤ maxPlace⟩

theorem roundTrips_change : change.RoundTrips := by
  rintro c ⟨hoffset, hlength⟩ j hj
  obtain ⟨hs, rfl, h⟩ := hj.exists_record (by simp)
  show change? (.object hs) = some c
  rw [change?, h.record? (by simp)]
  simp only [Option.bind_eq_bind, Option.bind_some]
  rw [h.required roundTrips_natural hoffset rfl rfl, h.required roundTrips_natural hlength rfl rfl,
    h.required roundTrips_text trivial rfl rfl]
  rfl

def notice : Form HostNotice :=
  ⟨.record [] [("changes", change.list.layout)], noticeJson, notice?, fun n =>
    (∀ seq ∈ n.echo, seq ≤ maxPlace) ∧ change.list.Proper n.changes⟩

theorem roundTrips_notice : notice.RoundTrips := by
  rintro n ⟨hecho, hchanges⟩ j hj
  obtain ⟨hs, rfl, h⟩ := hj.exists_record (by simp)
  show notice? (.object hs) = some n
  rw [notice?, h.record? (by simp)]
  simp only [Option.bind_eq_bind, Option.bind_some]
  rw [h.optional roundTrips_natural rfl hecho rfl rfl,
    h.required roundTrips_change.list hchanges rfl rfl]
  rfl

def textEdit : Form TextEdit :=
  ⟨.record [] [("range", range.layout)], textEditJson, textEdit?, fun e => range.Proper e.range⟩

theorem roundTrips_textEdit : textEdit.RoundTrips := by
  intro e hrange j hj
  obtain ⟨hs, rfl, h⟩ := hj.exists_record (by simp)
  show textEdit? (.object hs) = some e
  rw [textEdit?, h.record? (by simp)]
  simp only [Option.bind_eq_bind, Option.bind_some]
  rw [h.required roundTrips_range hrange rfl rfl, h.required roundTrips_text trivial rfl rfl]
  rfl

def hostEdit : Form HostEdit :=
  ⟨.record [] [("edits", textEdit.list.layout)], hostEditJson, hostEdit?, fun h =>
    h.seq ≤ maxPlace ∧ textEdit.list.Proper h.edits⟩

theorem roundTrips_hostEdit : hostEdit.RoundTrips := by
  rintro e ⟨hseq, hedits⟩ j hj
  obtain ⟨hs, rfl, h⟩ := hj.exists_record (by simp)
  show hostEdit? (.object hs) = some e
  rw [hostEdit?, h.record? (by simp)]
  simp only [Option.bind_eq_bind, Option.bind_some]
  rw [h.required roundTrips_natural hseq rfl rfl, h.required roundTrips_textEdit.list hedits rfl rfl]
  rfl

/-- A message has the type among its fields. -/
def message : Form ViewMessage :=
  ⟨.record [] [("actions", (steps true).layout)], messageJson, message?, fun
    | .snapshot steps selection => (Form.steps true).Proper steps ∧ ∀ i ∈ selection, i ≤ maxPlace
    | .edit seq _ index count steps => seq ≤ maxPlace ∧ index ≤ maxPlace ∧ count ≤ maxPlace ∧
      (Form.steps true).Proper steps⟩

theorem message?_of_holds {layoutOf : String → Layout} {fs hs : Record} {type : String}
    (h : Record.Holds layoutOf [] fs hs) (hlayout : layoutOf "type" = .plain)
    (hwrite : fs.lookup "type" = some (ofString type))
    (hreadable : (Json.object hs).isReadable = true) :
    message? (.object hs) = messageOf? type (.object (hs.filter fun f => f.1 != "type")) := by
  have hclear : Record.isClear hs ["type"] = true :=
    Record.isClear_iff.2 fun n hn => h.once (.inl (by
      rw [List.mem_singleton.1 hn]
      exact List.mem_map_of_mem (Record.mem_of_lookup hwrite)))
  have hcontents : (Json.object (hs.filter fun f => f.1 != "type")).isReadable = true :=
    isReadable_object.2 fun f hf => isReadable_object.1 hreadable f (List.mem_of_mem_filter hf)
  have htype : (Record.required? hs "type" string?) = some type := by
    obtain ⟨w, hw, hspell⟩ := h.found hwrite
    obtain rfl : w = ofString type := Respells.plain_iff.1 (hlayout ▸ hspell)
    rw [Record.required?, hw]
    exact congrArg some String.ofList_toList
  rw [message?, hclear]
  simp only [guard_true, Option.bind_eq_bind, Option.pure_def, Option.bind_some]
  rw [hcontents, htype]
  rfl

theorem roundTrips_message : message.RoundTrips := by
  intro m hm j hj
  have hreadable := hj.isReadable (isReadable_message m)
  cases m with
  | snapshot steps selection =>
    obtain ⟨hsteps, hselection⟩ := hm
    obtain ⟨hs, rfl, h⟩ := hj.exists_record (by simp)
    show message? (.object hs) = _
    rw [message?_of_holds h rfl rfl hreadable, messageOf?, (h.erase "type").record? (by simp)]
    simp only [Option.bind_eq_bind, Option.bind_some]
    rw [(h.erase "type").required (roundTrips_steps true) hsteps rfl rfl,
      (h.erase "type").optional roundTrips_natural rfl hselection rfl rfl]
    rfl
  | edit seq origin index count steps =>
    obtain ⟨hseq, hindex, hcount, hsteps⟩ := hm
    obtain ⟨hs, rfl, h⟩ := hj.exists_record (by simp)
    show message? (.object hs) = _
    rw [message?_of_holds h rfl rfl hreadable, messageOf?, (h.erase "type").record? (by simp)]
    simp only [Option.bind_eq_bind, Option.bind_some]
    rw [(h.erase "type").required roundTrips_natural hseq rfl rfl,
      (h.erase "type").required (roundTrips_origin true) trivial rfl rfl,
      (h.erase "type").required roundTrips_natural hindex rfl rfl,
      (h.erase "type").required roundTrips_natural hcount rfl rfl,
      (h.erase "type").required (roundTrips_steps true) hsteps rfl rfl]
    rfl

def selector : Form Selector :=
  ⟨.plain, selectorJson, selector?, fun
    | .index index => index ≤ maxPlace
    | .id _ => True⟩

theorem roundTrips_selector : selector.RoundTrips :=
  roundTrips_plain fun s hs => by
    cases s with
    | index index =>
      have hindex : natural? (.natural index) = some index := if_pos hs
      simp [selectorJson, selector?, single?, hindex]
    | id id => simp [selectorJson, selector?, single?, id?_idJson]

/-- Every number of a waypoint is finite. Its actions are left out where there are none. -/
def waypoint : Form Waypoint :=
  ⟨.record ["actions"] [("actions", mechanism.list.layout)], waypointJson, waypoint?, fun w =>
    w.pose.x.isFinite = true ∧ w.pose.y.isFinite = true ∧ w.pose.heading.isFinite = true⟩

theorem roundTrips_waypoint : waypoint.RoundTrips := by
  rintro w ⟨hx, hy, hheading⟩ j hj
  have hwrite : waypoint.layout.Respells (.object (poseFields w.pose
      ++ if w.actions.isEmpty then [] else [("actions", ofList mechanismJson w.actions)])) j := hj
  obtain ⟨hs, rfl, h⟩ := hwrite.exists_record (by split <;> simp [poseFields])
  have hrecord : record? ["x", "y", "heading", "actions"] (.object hs) = some hs :=
    h.record? (by simp [poseFields])
  have hpose : poseOf? hs = some w.pose := h.poseOf? hx hy hheading ⟨rfl, rfl, rfl⟩
  show waypoint? (.object hs) = some w
  rw [waypoint?.eq_def]
  simp only [Option.bind_eq_bind, hrecord, Option.bind_some, hpose]
  cases hempty : w.actions.isEmpty with
  | true =>
    rw [hempty] at h
    rw [h.absent (List.mem_singleton_self _) rfl, ← List.isEmpty_iff.1 hempty]
    rfl
  | false =>
    rw [hempty] at h
    obtain ⟨k, hk, hspell⟩ := h.found (show List.lookup "actions" _ = some _ from rfl)
    have hread : k.list? mechanism? = some w.actions :=
      roundTrips_mechanism.list w.actions (fun _ _ => trivial) k hspell
    rw [hk]
    simp only [hread, Option.bind_some]
    rfl

end Form

/-- The kinds of values that go over the wire. -/
inductive Payload where
  | action | step | edit | event | change | notice | hostEdit | message | selector | waypoint

namespace Payload

def Carrier : Payload → Type
  | .action => Action
  | .step => Step
  | .edit => RoutineEdit
  | .event => RoutineEvent
  | .change => TextChange
  | .notice => HostNotice
  | .hostEdit => HostEdit
  | .message => ViewMessage
  | .selector => Selector
  | .waypoint => Waypoint

def form : (p : Payload) → Form p.Carrier
  | .action => .action false
  | .step => .step false
  | .edit => .edit
  | .event => .event
  | .change => .change
  | .notice => .notice
  | .hostEdit => .hostEdit
  | .message => .message
  | .selector => .selector
  | .waypoint => .waypoint

theorem roundTrips (p : Payload) : p.form.RoundTrips := by
  cases p with
  | action => exact Form.roundTrips_action false
  | step => exact Form.roundTrips_step false
  | edit => exact Form.roundTrips_edit
  | event => exact Form.roundTrips_event
  | change => exact Form.roundTrips_change
  | notice => exact Form.roundTrips_notice
  | hostEdit => exact Form.roundTrips_hostEdit
  | message => exact Form.roundTrips_message
  | selector => exact Form.roundTrips_selector
  | waypoint => exact Form.roundTrips_waypoint

/-- Every value on the wire is read back from what is written for it, and from every spelling of that:
fields in another order, and in records fields that no reader knows. -/
theorem reads_back (p : Payload) {x : p.Carrier} (hx : p.form.Proper x) :
    p.form.read? (p.form.write x) = some x ∧
      ∀ j, p.form.layout.Respells (p.form.write x) j → p.form.read? j = some x :=
  ⟨p.roundTrips x hx _ .same, p.roundTrips x hx⟩

/-- A message with every object in reverse order and a field that no reader knows. -/
theorem reads_back_reversed :
    message.form.Proper (.snapshot [⟨⟨7⟩, .wait 5, none⟩] (some 0)) ∧
      message? (.object [("note", .array [.null]), ("selection", .natural 0),
        ("actions", .array [.object [("source", .null),
          ("action", .object [("params", .object [("milliseconds", ofInt64 5)]),
            ("type", kindJson .wait)]),
          ("id", idJson ⟨7⟩)]]),
        ("type", ofString "snapshot")]) = some (.snapshot [⟨⟨7⟩, .wait 5, none⟩] (some 0)) := by
  have hproper : message.form.Proper (.snapshot [⟨⟨7⟩, .wait 5, none⟩] (some 0)) := by
    refine ⟨fun s hs => ?_, fun i hi => ?_⟩
    · obtain rfl := List.mem_singleton.1 hs
      exact ⟨fun e he x hx => by simp_all [Action.params], fun t ht => by simp at ht⟩
    · obtain rfl := Option.some.inj hi
      exact Nat.zero_le _
  let action : Json :=
    .object [("params", .object [("milliseconds", ofInt64 5)]), ("type", kindJson .wait)]
  let step : Json := .object [("source", .null), ("action", action), ("id", idJson ⟨7⟩)]
  have haction : (Form.action true).layout.Respells (actionJson (.wait 5)) action :=
    .record Prod.snd [] (fun _ _ => .same) (fun _ hf => absurd hf List.not_mem_nil) (.swap _ _ _)
  have hstep : (Form.step true).layout.Respells (stepJson ⟨⟨7⟩, .wait 5, none⟩) step := by
    refine .record (fun f => if f.1 = "action" then action else f.2) [] ?_
      (fun _ hf => absurd hf List.not_mem_nil) (List.reverse_perm [_, _, _]).symm
    simp only [List.forall_mem_cons]
    exact ⟨.same, haction, .same, fun _ hf => absurd hf List.not_mem_nil⟩
  have hsteps : (Form.steps true).layout.Respells (stepsJson [⟨⟨7⟩, .wait 5, none⟩])
      (.array [step]) := by
    refine .list rfl fun i j k hj hk => ?_
    cases i with
    | zero => cases hj; cases hk; exact hstep
    | succ i => cases hj
  have hmessage : message.form.layout.Respells
      (messageJson (.snapshot [⟨⟨7⟩, .wait 5, none⟩] (some 0)))
      (.object [("note", .array [.null]), ("selection", .natural 0), ("actions", .array [step]),
        ("type", ofString "snapshot")]) := by
    refine .record (fun f => if f.1 = "actions" then .array [step] else f.2)
      [("note", .array [.null])] ?_ (by simp [isReadable, areReadable])
      (List.reverse_perm [_, _, _, _]).symm
    simp only [List.forall_mem_cons]
    exact ⟨.same, hsteps, .same, fun _ hf => absurd hf List.not_mem_nil⟩
  exact ⟨hproper, (reads_back .message hproper).2 _ hmessage⟩

end Payload

end RoutineSync.Wire
