import RoutineSync.Proofs.Project.FileTree
import RoutineSync.Proofs.Terminal.Editing
/-!
The front end under everything that a user can do. What is selected stays inside the lists, a file
that is open and clean holds the session's text, and edits that have not been written stay open until
they are.
-/
set_option autoImplicit false

namespace RoutineSync.App

inductive Gesture where
  | moveSelection (forward : Bool)
  | toggleFocus
  | openSelected
  | deleteSelected
  | appendWait
  | undo
  | redo
  | write

def perform (a : App) (t : FileTree) : Gesture → Minting (App × FileTree)
  | .moveSelection forward => return (a.moveSelection forward, t)
  | .toggleFocus => return (a.toggleFocus, t)
  | .openSelected => return (← a.openSelected t, t)
  | .deleteSelected => return (← a.deleteSelected, t)
  | .appendWait => return (← a.appendWait, t)
  | .undo => return (← a.undo, t)
  | .redo => return (← a.redo, t)
  | .write =>
    match a.write t with
    | (.ok b, u) => return (b, u)
    | (.error _, u) => return (a, u)

/-- The selections lie in their lists, and a clean file is as it was read or written last. -/
structure InOrder (a : App) (t : FileTree) : Prop where
  fileSelected : a.files ≠ [] → ∃ i, a.selectedFile = some i ∧ i < a.files.length
  focused : a.focus = .actions → a.opened.isSome = true
  quiet : ∀ o, a.opened = some o → o.session.Quiet
  stepSelected : ∀ o, a.opened = some o →
    ∃ i, a.selectedAction = some i ∧ i < o.session.steps.length
  saved : ∀ o, a.opened = some o → o.dirty = false →
    t.readSource a.project o.path = .ok o.session.text

/-- Edits that have not been written stay open in the same session, until that session is written. -/
def Keeps (g : Gesture) (a b : App) : Prop :=
  ∀ o, a.opened = some o → o.dirty = true → ∃ o', b.opened = some o' ∧ o'.path = o.path ∧
    o.session.Leads o'.session ∧ (o'.dirty = true ∨ g = .write ∧ o'.session = o.session)

variable {a b : App} {t u : FileTree} {g : Gesture}

theorem keeps_of_opened (h : b.opened = a.opened) : Keeps g a b :=
  fun o ho hdirty => ⟨o, h.trans ho, rfl, .refl, .inl hdirty⟩

theorem actionCount_of_opened {o : OpenFile} (h : a.opened = some o) :
    a.actionCount = o.session.steps.length := by
  rw [actionCount, h]
  rfl

theorem clampSelection_eq {o : OpenFile} (ho : a.opened = some o)
    (hpos : 0 < o.session.steps.length) {i : Nat} (hi : a.selectedAction = some i) :
    a.clampSelection = { a with selectedAction := some (min i (o.session.steps.length - 1)) } := by
  rw [clampSelection, actionCount_of_opened ho, if_neg (by omega), hi]
  rfl

namespace InOrder

theorem start {c : Config} {supply supply' : IdSupply}
    (h : (App.start t c).run supply = (.ok a, supply')) : a.InOrder t := by
  unfold App.start at h
  cases hpaths : c.routineFiles t with
  | error e =>
    rw [hpaths] at h
    cases (congrArg Prod.fst h : (.error _ : Except StartError App) = .ok a)
  | ok paths =>
    rw [hpaths] at h
    dsimp only at h
    rw [StateT.run_bind] at h
    cases hcatalog : (t.catalog c.project paths).run supply with
    | mk x supply₁ =>
      rw [hcatalog] at h
      change StateT.run _ _ = _ at h
      cases x with
      | error e => cases (congrArg Prod.fst h : (.error _ : Except StartError App) = .ok a)
      | ok catalog =>
        obtain rfl := Except.ok.inj (congrArg Prod.fst h : (.ok _ : Except StartError App) = .ok a)
        refine ⟨fun hfiles => ⟨0, ?_, List.length_pos_of_ne_nil hfiles⟩, nofun, nofun, nofun, nofun⟩
        exact if_neg (by simpa using hfiles)

theorem reopened (h : a.InOrder t) {o : OpenFile} (hquiet : o.session.Quiet) {i : Nat}
    (hi : i < o.session.steps.length)
    (hsaved : o.dirty = false → t.readSource a.project o.path = .ok o.session.text) (focus : Pane)
    (status : String) :
    ({ a with opened := some o, selectedAction := some i, focus, status } : App).InOrder t where
  fileSelected := h.fileSelected
  focused _ := rfl
  quiet := fun _ ho => Option.some.inj ho ▸ hquiet
  stepSelected := fun _ ho => ⟨i, rfl, Option.some.inj ho ▸ hi⟩
  saved := fun _ ho => Option.some.inj ho ▸ hsaved

theorem withStatus (h : a.InOrder t) (status : String) : ({ a with status } : App).InOrder t :=
  ⟨h.fileSelected, h.focused, h.quiet, h.stepSelected, h.saved⟩

theorem selectAction (h : a.InOrder t) {i : Nat} (hi : i < a.actionCount) :
    ({ a with selectedAction := some i } : App).InOrder t := by
  refine ⟨h.fileSelected, h.focused, h.quiet, fun o ho => ⟨i, rfl, ?_⟩, h.saved⟩
  rwa [actionCount_of_opened (a := a) ho] at hi

theorem applies {edit : Session → Session.Outcome} (h : a.InOrder t) (happlies : a.Applies edit b) :
    b.InOrder t := by
  cases happlies with
  | closed => exact h
  | @idle o status ho =>
    obtain ⟨i, hi, hlt⟩ := h.stepSelected o ho
    have hcount := actionCount_of_opened ho
    rw [clampSelection_eq (a := { a with status }) ho (by omega) hi]
    refine (h.withStatus status).selectAction ?_
    show min i (o.session.steps.length - 1) < a.actionCount
    omega
  | @edited o s host message status ho hedit hwrites =>
    obtain ⟨i, hi, -⟩ := h.stepSelected o ho
    have hquiet := hwrites.quiet (h.quiet o ho)
    have hpos : 0 < s.settled.steps.length := hquiet.length_pos
    let o' : OpenFile := { o with session := s.settled, dirty := true }
    have hlt : min i (s.settled.steps.length - 1) < s.settled.steps.length := by omega
    rw [clampSelection_eq (a := { a with opened := some o', status }) rfl hpos hi]
    exact h.reopened (o := o') hquiet hlt nofun a.focus status

end InOrder

theorem Keeps.applies {edit : Session → Session.Outcome}
    (hmoves : ∀ (s t : Session) out, edit s = .ok (t, out) → s.Moves t) (h : a.InOrder t)
    (happlies : a.Applies edit b) : Keeps g a b := by
  cases happlies with
  | closed => exact keeps_of_opened rfl
  | idle => exact keeps_of_opened rfl
  | @edited o s host message status ho hedit hwrites =>
    intro o' ho' _
    cases ho.symm.trans ho'
    refine ⟨{ o with session := s.settled, dirty := true }, rfl, rfl, ?_, .inl rfl⟩
    exact .tail (.single (hmoves _ _ _ hedit)) (.settled_of_writes hwrites (h.quiet o ho))

theorem moved_lt {len : Nat} (hpos : 0 < len) {selected : Option Nat} (h : ∀ i ∈ selected, i < len)
    (forward : Bool) : moved forward selected len < len := by
  cases selected with
  | none => exact hpos
  | some i =>
    have := h i rfl
    rw [moved]
    split
    · exact Nat.mod_lt _ hpos
    · split <;> omega

theorem InOrder.selectStep (h : a.InOrder t) {o : OpenFile} (ho : a.opened = some o) {i : Nat}
    (hi : i < o.session.steps.length) :
    (({ a with selectedAction := some i } : App).selectStep i).InOrder t ∧
      Keeps g a (({ a with selectedAction := some i } : App).selectStep i) := by
  have hcount : i < a.actionCount := actionCount_of_opened ho ▸ hi
  have hselected := h.selectAction hcount
  cases hselect : o.session.select (.index i) with
  | error e =>
    have hstep : ({ a with selectedAction := some i } : App).selectStep i = { a with
        selectedAction := some i, status := "Selection failed: " ++ e.message idShown } := by
      rw [App.selectStep, ho]
      dsimp only
      rw [hselect]
    rw [hstep]
    exact ⟨hselected.withStatus _, keeps_of_opened rfl⟩
  | ok p =>
    obtain ⟨session, range⟩ := p
    have hstep : ({ a with selectedAction := some i } : App).selectStep i = { a with
        selectedAction := some i, opened := some { o with session } } := by
      rw [App.selectStep, ho]
      dsimp only
      rw [hselect]
    rw [hstep]
    refine ⟨?_, fun o' ho' hdirty => ?_⟩
    · obtain ⟨selection, rfl⟩ := Session.select_eq hselect
      have hquiet := h.quiet o ho
      exact h.reopened (o := { o with session := { o.session with selection } })
        ⟨hquiet.sound, hquiet.inStep, hquiet.echoed⟩ hi (h.saved o ho) a.focus a.status
    · cases ho.symm.trans ho'
      exact ⟨_, rfl, rfl, .single (.selected hselect), .inl hdirty⟩

theorem InOrder.moveSelection (h : a.InOrder t) (forward : Bool) :
    (a.moveSelection forward).InOrder t ∧ Keeps g a (a.moveSelection forward) := by
  unfold App.moveSelection
  split
  · split
    · exact ⟨h, keeps_of_opened rfl⟩
    · rename_i hfiles
      refine ⟨⟨fun hne => ?_, h.focused, h.quiet, h.stepSelected, h.saved⟩, keeps_of_opened rfl⟩
      refine ⟨_, rfl, moved_lt (List.length_pos_of_ne_nil hne) (fun i hi => ?_) forward⟩
      obtain ⟨k, hk, hlt⟩ := h.fileSelected hne
      cases hk.symm.trans hi
      exact hlt
  · rename_i hfocus
    obtain ⟨o, ho⟩ := Option.isSome_iff_exists.1 (h.focused hfocus)
    have hcount := actionCount_of_opened ho
    split
    · exact ⟨h, keeps_of_opened rfl⟩
    · obtain ⟨k, hk, hlt⟩ := h.stepSelected o ho
      refine h.selectStep ho ?_
      rw [hcount]
      refine moved_lt (by omega) (fun i hi => ?_) forward
      cases hk.symm.trans hi
      exact hlt

theorem InOrder.toggleFocus (h : a.InOrder t) : a.toggleFocus.InOrder t := by
  refine ⟨h.fileSelected, fun hfocus => ?_, h.quiet, h.stepSelected, h.saved⟩
  unfold App.toggleFocus at hfocus
  dsimp only at hfocus
  split at hfocus
  · rename_i hopened
    exact hopened.2
  · exact absurd hfocus nofun

/-- What opening the selected file makes of the front end. -/
inductive Opens (a : App) (t : FileTree) : App → Prop where
  | same (status : String) : Opens a t { a with status }
  | read {path : RelativePath} {text : Text} {session : Session} {supply supply' : IdSupply}
      (status : String) : (∀ o, a.opened = some o → o.dirty = false) →
      t.readSource a.project path = .ok text →
      (Session.start text).run supply = (.ok session, supply') →
      Opens a t { a with
        status
        selectedAction := if session.steps.length = 0 then none else some 0
        opened := some ⟨path, session, false⟩
        focus := .actions }

theorem exists_opens (a : App) (t : FileTree) (supply : IdSupply) :
    ∃ b supply', (a.openSelected t).run supply = (b, supply') ∧ Opens a t b := by
  unfold App.openSelected
  cases hdirty : a.opened.any (·.dirty) with
  | true => exact ⟨_, supply, rfl, .same _⟩
  | false =>
    have hclean : ∀ o, a.opened = some o → o.dirty = false := fun o ho => by
      rw [ho] at hdirty
      exact hdirty
    rw [if_neg (by simp)]
    cases a.selectedFile.bind fun index => a.files[index]? with
    | none => exact ⟨_, supply, rfl, .same a.status⟩
    | some path =>
      dsimp only
      cases hread : t.readSource a.project path with
      | error e => exact ⟨_, supply, rfl, .same _⟩
      | ok text =>
        dsimp only
        rw [StateT.run_bind]
        cases hstart : (Session.start text).run supply with
        | mk x supply' =>
          cases x with
          | error e => exact ⟨_, supply', rfl, .same _⟩
          | ok session => exact ⟨_, supply', rfl, .read _ hclean hread hstart⟩

theorem InOrder.opens (h : a.InOrder t) (hopens : Opens a t b) : b.InOrder t ∧ Keeps g a b := by
  cases hopens with
  | same status => exact ⟨h.withStatus status, keeps_of_opened rfl⟩
  | @read path text session supply supply' status hclean hread hstart =>
    have hquiet := Session.Quiet.start hstart
    obtain ⟨-, -, rfl, -⟩ := Session.run_start hstart
    rw [if_neg (Nat.ne_of_gt hquiet.length_pos)]
    refine ⟨?_, fun o ho hdirty => absurd (hclean o ho) (by simp [hdirty])⟩
    exact h.reopened (o := ⟨path, session, false⟩) hquiet hquiet.length_pos (fun _ => hread) .actions
      status

theorem InOrder.write (h : a.InOrder t) :
    (∀ b u, a.write t = (.ok b, u) → b.InOrder u ∧ Keeps .write a b) ∧
      ∀ e u, a.write t = (.error e, u) → a.InOrder u := by
  unfold App.write
  cases ho : a.opened with
  | none =>
    refine ⟨fun b u heq => ?_, fun e u heq => ?_⟩
    · cases heq
      exact ⟨h, keeps_of_opened rfl⟩
    · cases heq
  | some o =>
    dsimp only
    cases hsource : t.writeSource a.project o.path o.session.text with
    | mk x v =>
      cases x with
      | ok _ =>
        refine ⟨fun b u heq => ?_, fun e u heq => ?_⟩
        · cases heq
          refine ⟨⟨h.fileSelected, fun _ => rfl, fun o' ho' => ?_, fun o' ho' => ?_,
            fun o' ho' _ => ?_⟩, fun o' ho' _ => ?_⟩
          · exact Option.some.inj ho' ▸ h.quiet o ho
          · exact Option.some.inj ho' ▸ h.stepSelected o ho
          · exact Option.some.inj ho' ▸ FileTree.readSource_of_writeSource hsource
          · cases ho.symm.trans ho'
            exact ⟨_, rfl, rfl, .refl, .inr ⟨rfl, rfl⟩⟩
        · cases heq
      | error e =>
        refine ⟨fun b u heq => ?_, fun e u heq => ?_⟩
        · cases heq
        · cases heq
          exact ⟨h.fileSelected, h.focused, h.quiet, h.stepSelected, fun o' ho' hclean =>
            FileTree.readSource_of_writeSource_error hsource (h.saved o' ho' hclean)⟩

theorem InOrder.applied {edit : Session → Session.Outcome} (h : a.InOrder t)
    (hgives : ∀ s : Session, s.Gives (edit s))
    (hmoves : ∀ (s t : Session) out, edit s = .ok (t, out) → s.Moves t) {supply supply' : IdSupply}
    (hrun : (a.apply edit).run supply = (b, supply')) : b.InOrder t ∧ Keeps g a b := by
  obtain ⟨c, hc, happlies⟩ := exists_applies hgives h.quiet supply
  cases hc.symm.trans hrun
  exact ⟨h.applies happlies, .applies hmoves h happlies⟩

theorem InOrder.deleteSelected (h : a.InOrder t) {supply supply' : IdSupply}
    (hrun : a.deleteSelected.run supply = (b, supply')) : b.InOrder t ∧ Keeps g a b := by
  unfold App.deleteSelected at hrun
  cases hselected : a.selectedAction with
  | none =>
    rw [hselected] at hrun
    cases hrun
    exact ⟨h, keeps_of_opened rfl⟩
  | some index =>
    rw [hselected] at hrun
    exact h.applied (fun s => s.gives_edit _) (fun _ _ _ => .edited) hrun

/-- The step that was added is selected where there is one. -/
theorem InOrder.appendWait (h : a.InOrder t) {supply supply' : IdSupply}
    (hrun : a.appendWait.run supply = (b, supply')) : b.InOrder t ∧ Keeps g a b := by
  unfold App.appendWait at hrun
  generalize hindex : (a.selectedAction.map (· + 1)).getD a.actionCount = index at hrun
  dsimp only at hrun
  rw [StateT.run_bind] at hrun
  cases hwait : (Step.unwritten (.wait defaultWait)).run supply with
  | mk wait supply₁ =>
    rw [hwait] at hrun
    change StateT.run _ _ = _ at hrun
    rw [StateT.run_bind] at hrun
    cases happly : (a.apply fun s => s.edit (.insert index [wait])).run supply₁ with
    | mk c supply₂ =>
      obtain ⟨hc, hkeeps⟩ :=
        h.applied (g := g) (fun s => s.gives_edit _) (fun _ _ _ => .edited) happly
      rw [happly] at hrun
      obtain rfl :
          (if index < c.actionCount then { c with selectedAction := some index } else c) = b :=
        congrArg Prod.fst hrun
      split
      · rename_i hlt
        exact ⟨hc.selectAction hlt, hkeeps⟩
      · exact ⟨hc, hkeeps⟩

theorem run_pair {m : Minting App} {supply supply' : IdSupply}
    (h : (do return (← m, t) : Minting (App × FileTree)).run supply = ((b, u), supply')) :
    m.run supply = (b, supply') ∧ u = t := by
  rw [StateT.run_bind] at h
  cases hm : m.run supply with
  | mk c supply₁ =>
    rw [hm] at h
    cases h
    exact ⟨rfl, rfl⟩

theorem InOrder.perform (h : a.InOrder t) {supply supply' : IdSupply}
    (hrun : (a.perform t g).run supply = ((b, u), supply')) : b.InOrder u ∧ Keeps g a b := by
  cases g with
  | moveSelection forward =>
    cases hrun
    exact h.moveSelection forward
  | toggleFocus =>
    cases hrun
    exact ⟨h.toggleFocus, keeps_of_opened rfl⟩
  | openSelected =>
    obtain ⟨hm, rfl⟩ := run_pair hrun
    obtain ⟨c, supply₁, hc, hopens⟩ := exists_opens a u supply
    cases hc.symm.trans hm
    exact h.opens hopens
  | deleteSelected =>
    obtain ⟨hm, rfl⟩ := run_pair hrun
    exact h.deleteSelected hm
  | appendWait =>
    obtain ⟨hm, rfl⟩ := run_pair hrun
    exact h.appendWait hm
  | undo =>
    obtain ⟨hm, rfl⟩ := run_pair hrun
    exact h.applied (Session.gives_revisit .back) (fun _ _ _ => .undone) hm
  | redo =>
    obtain ⟨hm, rfl⟩ := run_pair hrun
    exact h.applied (Session.gives_revisit .forth) (fun _ _ _ => .redone) hm
  | write =>
    obtain ⟨hok, herror⟩ := h.write
    unfold App.perform at hrun
    dsimp only at hrun
    cases hwrite : a.write t with
    | mk x v =>
      rw [hwrite] at hrun
      cases x with
      | ok c =>
        cases hrun
        exact hok _ _ hwrite
      | error e =>
        cases hrun
        exact ⟨herror _ _ hwrite, keeps_of_opened rfl⟩

end RoutineSync.App
