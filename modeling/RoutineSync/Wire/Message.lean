import RoutineSync.Session.Message
import RoutineSync.Waypoint
import RoutineSync.Wire.Action
import RoutineSync.Wire.Identity
/-!
Steps, edits, changes and messages on the wire.
-/
set_option autoImplicit false

namespace RoutineSync.Wire

open Json

def idJson (id : ActionId) : Json := .text (idText id)

def id? (j : Json) : Option ActionId := j.text?.bind idOfText?

def rangeJson (r : ByteRange) : Json :=
  .object [("start", .natural r.start), ("end", .natural r.stop)]

/-- A range takes no other fields. -/
def range? (j : Json) : Option ByteRange := do
  let r ← j.record? ["start", "end"]
  guard (r.all fun f => f.1 == "start" || f.1 == "end")
  return ⟨← r.required? "start" natural?, ← r.required? "end" natural?⟩

def rangesJson (m : NameMap ByteRange) : Json := .object (m.map fun e => (e.1, rangeJson e.2))

/-- Of two ranges with one name the later one counts. -/
def ranges? : Json → Option (NameMap ByteRange)
  | .object fields =>
    (fields.mapM fun f => (range? f.2).map fun r => (f.1, r)).map NameMap.ofList
  | _ => none

def siteJson (s : CallSite) : Json :=
  .object [("offset", .natural s.start), ("end_offset", .natural s.stop), ("text", .text s.text),
    ("param_spans", rangesJson s.params)]

def site? (j : Json) : Option CallSite := do
  let r ← j.record? ["offset", "end_offset", "text", "param_spans"]
  return ⟨← r.required? "offset" natural?, ← r.required? "end_offset" natural?,
    ← r.required? "text" text?, ← r.required? "param_spans" ranges?⟩

def stepJson (s : Step) : Json :=
  .object [("id", idJson s.id), ("action", actionJson s.action),
    ("source", ofNullable siteJson s.site)]

def step? (held : Bool) (j : Json) : Option Step := do
  let r ← j.record? ["id", "action", "source"]
  return ⟨← r.required? "id" id?, ← r.required? "action" (action? held),
    ← r.optional? "source" site?⟩

def stepsJson (steps : List Step) : Json := ofList stepJson steps

def steps? (held : Bool) (j : Json) : Option (List Step) := j.list? (step? held)

def editJson (e : RoutineEdit) : Json :=
  .object [("actions", stepsJson e.steps), ("index", .natural e.index), ("count", .natural e.count)]

def edit? (j : Json) : Option RoutineEdit := do
  let r ← j.record? ["actions", "index", "count"]
  return ⟨← r.required? "index" natural?, ← r.required? "count" natural?,
    ← r.required? "actions" (steps? false)⟩

def originName : Origin → String
  | .text => "Text"
  | .view => "View"
  | .history => "History"

def originOfName? (name : String) : Option Origin :=
  [Origin.text, .view, .history].find? fun o => originName o == name

def originJson (o : Origin) : Json := ofString (originName o)

def origin? (held : Bool) (j : Json) : Option Origin := (j.name? held).bind originOfName?

def eventJson (e : RoutineEvent) : Json :=
  .object [("seq", .natural e.seq), ("origin", originJson e.origin), ("index", .natural e.index),
    ("removed", stepsJson e.removed), ("inserted", stepsJson e.inserted)]

def event? (j : Json) : Option RoutineEvent := do
  let r ← j.record? ["seq", "origin", "index", "removed", "inserted"]
  return ⟨← r.required? "seq" natural?, ← r.required? "origin" (origin? false),
    ← r.required? "index" natural?, ← r.required? "removed" (steps? false),
    ← r.required? "inserted" (steps? false)⟩

def changeJson (c : TextChange) : Json :=
  .object [("rangeOffset", .natural c.offset), ("rangeLength", .natural c.length),
    ("newText", .text c.text)]

def change? (j : Json) : Option TextChange := do
  let r ← j.record? ["rangeOffset", "rangeLength", "newText"]
  return ⟨← r.required? "rangeOffset" natural?, ← r.required? "rangeLength" natural?,
    ← r.required? "newText" text?⟩

def textEditJson (e : TextEdit) : Json :=
  .object [("range", rangeJson e.range), ("new_text", .text e.text)]

def textEdit? (j : Json) : Option TextEdit := do
  let r ← j.record? ["range", "new_text"]
  return ⟨← r.required? "range" range?, ← r.required? "new_text" text?⟩

def noticeJson (n : HostNotice) : Json :=
  .object [("echo", ofNullable .natural n.echo), ("changes", ofList changeJson n.changes)]

def notice? (j : Json) : Option HostNotice := do
  let r ← j.record? ["echo", "changes"]
  return ⟨← r.optional? "echo" natural?, ← r.required? "changes" (list? change?)⟩

def hostEditJson (h : HostEdit) : Json :=
  .object [("seq", .natural h.seq), ("edits", ofList textEditJson h.edits)]

def hostEdit? (j : Json) : Option HostEdit := do
  let r ← j.record? ["seq", "edits"]
  return ⟨← r.required? "seq" natural?, ← r.required? "edits" (list? textEdit?)⟩

def messageJson : ViewMessage → Json
  | .snapshot steps selection =>
    .object [("type", ofString "snapshot"), ("actions", stepsJson steps),
      ("selection", ofNullable .natural selection)]
  | .edit seq origin index count steps =>
    .object [("type", ofString "edit"), ("seq", .natural seq), ("origin", originJson origin),
      ("index", .natural index), ("count", .natural count), ("actions", stepsJson steps)]

/-- The message of a type with the given contents, which were taken in whole. -/
def messageOf? (type : String) (contents : Json) : Option ViewMessage :=
  match type with
  | "snapshot" => do
    let r ← contents.record? ["actions", "selection"]
    return .snapshot (← r.required? "actions" (steps? true)) (← r.optional? "selection" natural?)
  | "edit" => do
    let r ← contents.record? ["seq", "origin", "index", "count", "actions"]
    return .edit (← r.required? "seq" natural?) (← r.required? "origin" (origin? true))
      (← r.required? "index" natural?) (← r.required? "count" natural?)
      (← r.required? "actions" (steps? true))
  | _ => none

/-- A message has its type among its fields, or as the first item of an array. -/
def message? : Json → Option ViewMessage
  | .object fields => do
    guard (Record.isClear fields ["type"])
    let contents := Json.object (fields.filter fun f => f.1 != "type")
    guard contents.isReadable
    messageOf? (← Record.required? fields "type" string?) contents
  | .array (type :: items) => do
    guard (Json.array items).isReadable
    messageOf? (← type.string?) (.array items)
  | _ => none

def selectorJson : Selector → Json
  | .index index => .object [("Index", .natural index)]
  | .id id => .object [("Id", idJson id)]

def selector? (j : Json) : Option Selector := do
  match ← j.single? with
  | ("Index", v) => v.natural?.map .index
  | ("Id", v) => (id? v).map .id
  | _ => none

def mechanismJson (m : Mechanism) : Json := ofString m.name

def mechanism? (j : Json) : Option Mechanism := (j.name? false).bind Mechanism.ofName?

/-- A waypoint without actions is written as its pose. -/
def waypointJson (w : Waypoint) : Json :=
  .object (poseFields w.pose
    ++ if w.actions.isEmpty then [] else [("actions", ofList mechanismJson w.actions)])

/-- An array may leave the actions out, like an object. -/
def waypoint? (j : Json) : Option Waypoint := do
  let names := match j with
    | .array [_, _, _] => ["x", "y", "heading"]
    | _ => ["x", "y", "heading", "actions"]
  let r ← j.record? names
  let actions ← match r.lookup "actions" with
    | none => some []
    | some actions => actions.list? mechanism?
  return ⟨← poseOf? r, actions⟩

end RoutineSync.Wire
