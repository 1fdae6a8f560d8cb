import RoutineSync.Proofs.Terminal.Gestures
/-!
Runs of the front end, from its start through any gestures, with nobody else at the files. The main
statement is that edits which have not been written are never lost.
-/
set_option autoImplicit false

namespace RoutineSync.App

/-- What the front end and the files come to. -/
inductive Runs : App → FileTree → Prop where
  | start {t : FileTree} {c : Config} {a : App} {supply supply' : IdSupply} :
      (App.start t c).run supply = (.ok a, supply') → Runs a t
  | perform {a b : App} {t u : FileTree} {supply supply' : IdSupply} (g : Gesture) :
      Runs a t → (a.perform t g).run supply = ((b, u), supply') → Runs b u

variable {a : App} {t : FileTree}

theorem Runs.inOrder (h : Runs a t) : a.InOrder t := by
  induction h with
  | start h => exact .start h
  | perform g _ hrun ih => exact (ih.perform hrun).1

/-- Whatever a user does, a clean file holds the text of its session, which is in step and has nothing
pending. The selections lie in their lists, and the steps have the focus only while a file is open.
The next gesture leaves unwritten edits open in their session, unless it writes them. -/
theorem nothing_lost_of_runs (h : Runs a t) :
    (∀ o, a.opened = some o →
      (o.dirty = false → t.readSource a.project o.path = .ok o.session.text) ∧
      o.session.desynced = false ∧ o.session.pending = [] ∧
      ∃ i, a.selectedAction = some i ∧ i < o.session.steps.length) ∧
    (a.files ≠ [] → ∃ i, a.selectedFile = some i ∧ i < a.files.length) ∧
    (a.focus = .actions → a.opened.isSome = true) ∧
    ∀ g b u supply supply', (a.perform t g).run supply = ((b, u), supply') → Keeps g a b := by
  have ha := h.inOrder
  refine ⟨fun o ho => ?_, ha.fileSelected, ha.focused,
    fun g b u supply supply' hrun => (ha.perform hrun).2⟩
  exact ⟨ha.saved o ho, (ha.quiet o ho).inStep, (ha.quiet o ho).echoed, ha.stepSelected o ho⟩

/-- A tree with one file, at the top. -/
def oneFile : FileTree := ⟨[(["a"], .text "auton::setPose(0, 0, 0);".toList)], []⟩

theorem routineFiles_oneFile : (⟨"/", "a"⟩ : Config).routineFiles oneFile = .ok ["/a"] := by
  have hpattern : Path.join "/" "a" = "/a" := by decide +kernel
  have hparts : Glob.partsOf "/a" = ["a"] := by decide +kernel
  have hfound : ((Glob.search oneFile false [.name [.char 'a']] ⟨"/", []⟩).filter
      fun f => (f.entry? oneFile).any (· != .directory)).map (·.path) = ["/a"] := by
    decide +kernel
  have hcomponents : (["a"].mapM fun p => Glob.component? p.toList) = some [.name [.char 'a']] := by
    decide +kernel
  have hfiles : Glob.files? oneFile "/a" = some ["/a"] := by
    rw [Glob.files?, hparts, hcomponents]
    show some ((((Glob.search oneFile false [.name [.char 'a']] ⟨"/", []⟩).filter
      fun f => (f.entry? oneFile).any (· != .directory)).map (·.path)).mergeSort _) = _
    rw [hfound, List.mergeSort_singleton]
  unfold Config.routineFiles
  dsimp only
  rw [hpattern, hfiles]

theorem readSource_oneFile :
    oneFile.readSource "/" ⟨"a"⟩ = .ok "auton::setPose(0, 0, 0);".toList := by
  rw [FileTree.readSource_eq_ok_iff, FileTree.read_eq_ok_iff]
  decide +kernel

theorem relative?_oneFile : FileTree.relative? "/" "/a" = some ⟨"a"⟩ := by decide +kernel

def oneFileSteps : List Step × IdSupply := (scanSteps "auton::setPose(0, 0, 0);".toList 0).run ⟨0⟩

def oneFileApp : App :=
  ⟨"/", ⟨[⟨⟨"a"⟩, oneFileSteps.1⟩]⟩, [⟨"a"⟩], some 0, none, .files, none, s!"{1} auton file(s)"⟩

theorem run_start_oneFile :
    (App.start oneFile ⟨"/", "a"⟩).run ⟨0⟩ = (.ok oneFileApp, oneFileSteps.2) := by
  have hcatalog : (oneFile.catalog "/" ["/a"]).run ⟨0⟩
      = (.ok ⟨[⟨⟨"a"⟩, oneFileSteps.1⟩]⟩, oneFileSteps.2) := by
    unfold FileTree.catalog FileTree.addFiles
    rw [relative?_oneFile]
    dsimp only
    rw [readSource_oneFile]
    dsimp only
    rw [StateT.run_bind]
    rfl
  unfold App.start
  rw [routineFiles_oneFile]
  dsimp only
  rw [StateT.run_bind, hcatalog]
  rfl

/-- A wait is added to the file. -/
theorem nothing_lost_of_runs_edited :
    ∃ a t, Runs a t ∧ a.opened.any (·.dirty) = true ∧
      (∀ o, a.opened = some o →
        (o.dirty = false → t.readSource a.project o.path = .ok o.session.text) ∧
        o.session.desynced = false ∧ o.session.pending = [] ∧
        ∃ i, a.selectedAction = some i ∧ i < o.session.steps.length) ∧
      ∀ g b u supply supply', (a.perform t g).run supply = ((b, u), supply') → Keeps g a b := by
  let opened (session : Session) : App := { oneFileApp with
    status := s!"a: {session.steps.length} action(s)"
    selectedAction := if session.steps.length = 0 then none else some 0
    opened := some ⟨⟨"a"⟩, session, false⟩
    focus := .actions }
  have hall : (match (Session.start "auton::setPose(0, 0, 0);".toList).run oneFileSteps.2 with
      | (.ok session, supply) => ((opened session).appendWait.run supply).1.opened.any (·.dirty)
      | _ => false) = true := by
    decide +kernel
  cases hstart : (Session.start "auton::setPose(0, 0, 0);".toList).run oneFileSteps.2 with
  | mk x supply =>
    rw [hstart] at hall
    cases x with
    | error e => cases hall
    | ok session =>
      have hopen :
          (oneFileApp.openSelected oneFile).run oneFileSteps.2 = (opened session, supply) := by
        unfold App.openSelected
        rw [if_neg (by decide +kernel), show (oneFileApp.selectedFile.bind fun index =>
          oneFileApp.files[index]?) = some ⟨"a"⟩ from rfl]
        dsimp only
        rw [show oneFileApp.project = "/" from rfl, readSource_oneFile]
        dsimp only
        rw [StateT.run_bind, hstart]
        rfl
      have hruns : Runs (opened session) oneFile :=
        @Runs.perform _ _ _ _ _ supply .openSelected (.start run_start_oneFile) (by
          show (do return (← oneFileApp.openSelected oneFile, oneFile) : Minting _).run _ = _
          rw [StateT.run_bind, hopen]
          rfl)
      have hedited := @Runs.perform _ ((opened session).appendWait.run supply).1 _ oneFile supply
        ((opened session).appendWait.run supply).2 .appendWait hruns rfl
      obtain ⟨hopened, -, -, hkeeps⟩ := nothing_lost_of_runs hedited
      exact ⟨_, _, hedited, hall, hopened, hkeeps⟩

end RoutineSync.App
