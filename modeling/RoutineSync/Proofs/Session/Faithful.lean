import RoutineSync.Proofs.Session.Noticing
import RoutineSync.Proofs.Session.StartPose
/-!
Whatever is asked of a session, as long as it is in step every step of its routine stands in the
text exactly where its site says.
-/
set_option autoImplicit false

namespace RoutineSync

/-- The texts that changes lead through, up to the first one that does not fit. -/
def TextChange.reached (t : Text) : List TextChange → List Text
  | [] => []
  | c :: cs => if c.fits t then c.apply t :: reached (c.apply t) cs else []

namespace Session

/-- A session that is started has the calls of its text, numbered in their order. -/
theorem run_start {t : Text} {s : Session} {supply supply' : IdSupply}
    (h : (Session.start t).run supply = (.ok s, supply')) :
    Routine.ofSteps (((scan t).zipIdx supply.next).map fun p => (p.1.shift 0).stepWith p.2)
        = .ok s.routine ∧
      s.steps = ((scan t).zipIdx supply.next).map (fun p => (p.1.shift 0).stepWith p.2) ∧
      s.text = t ∧ s.pending = [] ∧ s.desynced = false ∧
      supply' = ⟨supply.next + (scan t).length⟩ := by
  obtain ⟨routine, hr, rfl, rfl⟩ := exists_of_start h
  refine ⟨hr, ?_, rfl, rfl, rfl, rfl⟩
  obtain ⟨-, hr⟩ := Result.check_eq_ok_iff.1 hr
  obtain ⟨-, hr⟩ := Result.check_eq_ok_iff.1 hr
  rw [Result.pure_eq_ok_iff] at hr
  show routine.steps = _
  rw [← hr]
  rfl

theorem Kept.start {t : Text} {s : Session} {supply supply' : IdSupply}
    (h : (Session.start t).run supply = (.ok s, supply')) : s.Kept := by
  obtain ⟨hr, hsteps, htext, -⟩ := run_start h
  refine ⟨.ofFresh (.ofSteps hr), fun _ => ⟨(scan t).map (·.site), ?_, htext ▸ anchored_scan t⟩⟩
  rw [hsteps, List.map_map]
  conv => rhs; rw [← List.zipIdx_map_fst supply.next (scan t), List.map_map, List.map_map]
  rfl

theorem Kept.takesAll {s t : Session} {cs ds : List TextChange} {told : List ViewMessage}
    (h : s.Kept) (htakes : s.TakesAll cs t told)
    (hs : ∀ u ∈ TextChange.reached s.text (cs ++ ds), u.size ≤ maxPlace) : t.Kept := by
  induction htakes with
  | nil => exact h
  | cons hf hrun _ ih =>
    rw [List.cons_append, TextChange.reached, if_pos hf, List.forall_mem_cons] at hs
    obtain ⟨hkept, htext⟩ := h.takeChange hf hs.1 hrun
    exact ih hkept (by rw [htext]; exact hs.2)

theorem Kept.notice {s s' : Session} {n : HostNotice}
    {x : Except SessionError (List ViewMessage)} {supply supply' : IdSupply} (h : s.Kept)
    (hs : ∀ t ∈ TextChange.reached s.text n.changes, t.size ≤ maxPlace)
    (ht : (s.notice n).run supply = ((s', x), supply')) : s'.Kept := by
  have hall : ∀ t told, s.TakesAll n.changes t told → t.Kept := fun t told htakes =>
    h.takesAll htakes (by rwa [List.append_nil])
  cases notices_of_run ht with
  | echo _ _ => exact ⟨h.sound, h.inStep⟩
  | refused _ hchanges htakes _ => exact h.takesAll htakes (hchanges ▸ hs)
  | taken _ htakes _ => exact hall _ _ htakes
  | lost _ htakes _ => exact hall _ _ htakes
  | regained _ htakes _ hresync => exact (hall _ _ htakes).resync hresync

inductive Request where
  | notice (n : HostNotice)
  | edit (e : RoutineEdit)
  | undo
  | redo
  | setStartPose (pose : Pose)
  | select (which : Selector)
  | clearSelection

/-- The session after something that may be refused, which changes nothing then. -/
def orSame {α : Type} (s : Session) : Except SessionError (Session × α) → Session
  | .ok (t, _) => t
  | .error _ => s

end Session

def Operations.respond {m : Type → Type} [Monad m] (o : Operations m) (s : Session) :
    Session.Request → StateT IdSupply m Session
  | .notice n => return (← o.notice s n).1
  | .edit e => return s.orSame (← (o.edit s e).run)
  | .undo => return s.orSame (← (o.revisit .back s).run)
  | .redo => return s.orSame (← (o.revisit .forth s).run)
  | .setStartPose pose => return (← o.setStartPose s pose).1
  | .select which => return s.orSame (s.select which)
  | .clearSelection => return s.clearSelection

namespace Session

def respond (s : Session) (q : Request) : Minting Session := Operations.plain.respond s q

/-- The texts that a session holds on the way to its response. -/
def heldTexts (s : Session) (q : Request) (supply : IdSupply) : List Text :=
  match q with
  | .notice n => TextChange.reached s.text n.changes
  | q => [((s.respond q).run supply).1.text]

/-- The sessions that requests lead to, with texts whose places can be counted. -/
inductive Reachable : Session → Prop where
  | start {t : Text} {s : Session} {supply supply' : IdSupply} :
      (Session.start t).run supply = (.ok s, supply') → Reachable s
  | respond {s : Session} {supply : IdSupply} (q : Request) :
      Reachable s → (∀ t ∈ s.heldTexts q supply, t.size ≤ maxPlace) →
      Reachable ((s.respond q).run supply).1

theorem Kept.orSame {α : Type} {s : Session} {x : Except SessionError (Session × α)} (h : s.Kept)
    (hs : (s.orSame x).text.size ≤ maxPlace)
    (hx : ∀ t a, x = .ok (t, a) → t.text.size ≤ maxPlace → t.Kept) : (s.orSame x).Kept := by
  cases x with
  | error e => exact h
  | ok p => exact hx p.1 p.2 rfl hs

theorem select_eq {s t : Session} {which : Selector} {range : Option ByteRange}
    (h : s.select which = .ok (t, range)) : ∃ selection, t = { s with selection } := by
  cases selects_of_eq h with
  | byIndex _ => exact ⟨_, rfl⟩
  | byId _ => exact ⟨_, rfl⟩

theorem Kept.select {s t : Session} {which : Selector} {range : Option ByteRange} (h : s.Kept)
    (ht : s.select which = .ok (t, range)) : t.Kept := by
  obtain ⟨selection, rfl⟩ := select_eq ht
  exact ⟨h.sound, h.inStep⟩

theorem Kept.respond {s : Session} (h : s.Kept) (q : Request) (supply : IdSupply)
    (hs : ∀ t ∈ s.heldTexts q supply, t.size ≤ maxPlace) :
    ((s.respond q).run supply).1.Kept := by
  cases q with
  | notice n =>
    cases hn : (s.notice n).run supply with
    | mk p supply' =>
      obtain ⟨w, x⟩ := p
      have hrun : ((s.respond (.notice n)).run supply).1 = w := by
        show ((s.notice n).run supply).1.1 = w
        rw [hn]
      rw [hrun]
      exact h.notice hs hn
  | edit e => exact h.orSame (hs _ List.mem_cons_self) fun _ _ he ht => (s.gives_edit e).kept h he ht
  | undo => exact h.orSame (hs _ List.mem_cons_self) fun _ _ he ht => (s.gives_revisit .back).kept h he ht
  | redo => exact h.orSame (hs _ List.mem_cons_self) fun _ _ he ht => (s.gives_revisit .forth).kept h he ht
  | setStartPose pose => exact h.setStartPose rfl (hs _ List.mem_cons_self)
  | select which => exact h.orSame (hs _ List.mem_cons_self) fun _ _ he _ => h.select he
  | clearSelection => exact ⟨h.sound, h.inStep⟩

theorem Reachable.kept {s : Session} (h : s.Reachable) : s.Kept := by
  induction h with
  | start h => exact Kept.start h
  | respond q _ hs ih => exact ih.respond q _ hs

/-- A call stands in a text where its site says, and holds the ranges of its parameters, no two of
which have a byte in common. -/
structure Faithful (t : Text) (a : CallSite) : Prop where
  stands : t.slice? a.start a.stop = some a.text
  params_inside : ∀ e ∈ a.params, e.2.start ≤ e.2.stop ∧ e.2.stop ≤ a.text.size
  params_apart : a.params.Pairwise fun e f => e.2.stop ≤ f.2.start ∨ f.2.stop ≤ e.2.start

/-- In every state that is in step, the calls of all steps stand in the text where their sites say,
in the order of the list and without overlap. -/
theorem faithful_of_reachable {s : Session} (h : s.Reachable) (hd : s.desynced = false) :
    ∃ sites : List CallSite, s.steps.map (·.site) = sites.map some ∧
      (∀ a ∈ sites, Faithful s.text a) ∧ sites.Pairwise fun a b => a.stop ≤ b.start := by
  obtain ⟨sites, hsites, ha⟩ := h.kept.inStep hd
  refine ⟨sites, hsites, fun a hm => ?_, ha.ordered⟩
  have hst := ha.stands a hm
  refine ⟨Text.slice?_eq_some_iff.2 ⟨hst.stands, hst.stop_eq.symm⟩, fun e he => ?_, hst.proper.apart⟩
  obtain ⟨x, y, z, ht, hr, -⟩ := hst.proper.inside e he
  have := congrArg Text.size ht
  simp only [Text.size_append] at this
  simp only [hr]
  omega

/-- A comment before the only call moves it, and a step is then inserted behind it. -/
theorem faithful_of_reachable_moved :
    let comment : Request := .notice ⟨none, [⟨0, 0, "// start\n".toList⟩]⟩
    let shoot : Request := .edit (.insert 1 [⟨⟨7⟩, .shoot, none⟩])
    ∃ s : Session, (∃ t supply supply' supply₁ supply₂ s₀,
        (Session.start t).run supply = (.ok s₀, supply') ∧
        s = ((((s₀.respond comment).run supply₁).1.respond shoot).run supply₂).1) ∧
      s.desynced = false ∧ s.text = "// start\nauton::setPose(0, 0, 0);\nauton::shoot();".toList ∧
      ∃ sites : List CallSite, s.steps.map (·.site) = sites.map some ∧
        (∀ a ∈ sites, Faithful s.text a) ∧ sites.Pairwise fun a b => a.stop ≤ b.start := by
  intro comment shoot
  have hall : (match (Session.start "auton::setPose(0, 0, 0);".toList).run ⟨0⟩ with
      | (.ok s₀, _) =>
        let s₁ := ((s₀.respond comment).run ⟨1⟩).1
        let s₂ := ((s₁.respond shoot).run ⟨2⟩).1
        (s₀.heldTexts comment ⟨1⟩ ++ s₁.heldTexts shoot ⟨2⟩).all (fun t => t.size ≤ maxPlace) &&
          (!s₂.desynced && s₂.text == "// start\nauton::setPose(0, 0, 0);\nauton::shoot();".toList)
      | _ => false) = true := by
    decide +kernel
  cases hstart : (Session.start "auton::setPose(0, 0, 0);".toList).run ⟨0⟩ with
  | mk x supply =>
    rw [hstart] at hall
    cases x with
    | error e => simp at hall
    | ok s₀ =>
      simp only [Bool.and_eq_true, List.all_eq_true, List.mem_append, decide_eq_true_eq,
        Bool.not_eq_true', beq_iff_eq] at hall
      obtain ⟨hsizes, hd, htext⟩ := hall
      have h₁ := @Reachable.respond s₀ ⟨1⟩ comment (.start hstart) fun t ht => hsizes t (.inl ht)
      have h₂ := @Reachable.respond _ ⟨2⟩ shoot h₁ fun t ht => hsizes t (.inr ht)
      exact ⟨_, ⟨_, _, _, _, _, s₀, hstart, rfl⟩, hd, htext, faithful_of_reachable h₂ hd⟩

end Session

end RoutineSync
