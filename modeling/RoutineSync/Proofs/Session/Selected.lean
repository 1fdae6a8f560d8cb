import RoutineSync.Proofs.Session.Agreement
import RoutineSync.Proofs.Session.Mirror
import RoutineSync.Proofs.Session.Refusals
/-!
The selection is an index, and follows the identity of the selected step through edits from either
side. Only where a lost session is found again does it stay where it was in the list.
-/
set_option autoImplicit false

namespace RoutineSync

namespace Splice
variable {α : Type} {s : Splice α} {xs : List α} {k : Nat}

theorem getElem?_run_left (h : s.Fits xs) (hk : k < s.index) : (s.run xs)[k]? = xs[k]? := by
  simp only [Fits] at h
  rw [run, List.append_assoc, List.getElem?_append_left (by simp; omega), List.getElem?_take_of_lt hk]

theorem getElem?_run_right (h : s.Fits xs) (hk : s.index + s.count ≤ k) :
    (s.run xs)[k + s.inserted.length - s.count]? = xs[k]? := by
  simp only [Fits] at h
  have hlength : (xs.take s.index ++ s.inserted).length = s.index + s.inserted.length := by
    simp; omega
  rw [run, List.getElem?_append_right (by omega), hlength, List.getElem?_drop]
  congr 1
  omega

end Splice

namespace Routine
variable {r t : Routine} {id : ActionId} {k : Nat}

def ids (r : Routine) : List ActionId := r.steps.map (·.id)

theorem indexOf?_eq_idxOf? (r : Routine) (id : ActionId) : r.indexOf? id = r.ids.idxOf? id := by
  rw [ids, List.idxOf?, List.findIdx?_map]
  rfl

theorem indexOf?_eq_none_iff : r.indexOf? id = none ↔ id ∉ r.ids := by
  rw [indexOf?_eq_idxOf?, List.idxOf?_eq_none_iff]

theorem indexOf?_eq_some_iff (hn : r.ids.Nodup) : r.indexOf? id = some k ↔ r.ids[k]? = some id := by
  rw [indexOf?_eq_idxOf?, List.idxOf?, List.findIdx?_eq_some_iff_getElem]
  constructor
  · rintro ⟨hk, h, -⟩
    rw [List.getElem?_eq_getElem hk, eq_of_beq h]
  · intro h
    obtain ⟨hk, rfl⟩ := List.getElem?_eq_some_iff.1 h
    refine ⟨hk, beq_self_eq_true _, fun j hj heq => ?_⟩
    have := (List.getElem_inj hn).1 (eq_of_beq heq)
    omega

theorem indexOf?_congr (h : r.ids = t.ids) (id : ActionId) : r.indexOf? id = t.indexOf? id := by
  rw [indexOf?_eq_idxOf?, indexOf?_eq_idxOf?, h]

theorem ids_eq_of_entries (h : r.entries = t.entries) : r.ids = t.ids := by
  have hids : ∀ r : Routine, r.ids = r.entries.map (·.1) := fun r => by
    rw [entries, List.map_map]
    rfl
  rw [hids, hids, h]

end Routine

theorem RoutineEvent.Tells.ids_eq {event : RoutineEvent} {e : RoutineEdit} {r t : Routine}
    (h : event.Tells e r t) : t.ids = Splice.run ⟨e.index, e.count, e.steps.map (·.id)⟩ r.ids := by
  have := congrArg (List.map (·.id)) h.steps_eq
  rwa [← Splice.map_run] at this

def ViewMessage.isSnapshot : ViewMessage → Bool
  | .snapshot _ _ => true
  | .edit _ _ _ _ _ => false

namespace Session
variable {s t : Session} {before routine : Routine} {event : RoutineEvent} {e : RoutineEdit}
  {id : ActionId}

theorem followSelection_of_none (h : s.selection = none) : s.followSelection event = s := by
  unfold followSelection Operations.followSelection
  rw [h]
  rfl

theorem selection_followSelection_of_some {k : Nat} (h : s.selection = some k) :
    (s.followSelection event).selection =
      if k < event.index then some k
      else if event.index + event.removed.length ≤ k then
        some (k + event.inserted.length - event.removed.length)
      else (event.removed[k - event.index]?).bind fun old => s.routine.indexOf? old.id := by
  unfold followSelection Operations.followSelection
  rw [h]
  show (Operations.plain.follow s.routine event k).run = _
  unfold Operations.follow
  split
  · rfl
  · split <;> rfl

/-- The selection goes where the identity goes, if the edit does not bring in what was not there. -/
theorem selection_followSelection (h : event.Tells e before routine) (hids : s.routine.ids = routine.ids)
    (hb : before.ids.Nodup) (hr : routine.ids.Nodup) (hsel : s.selection = before.indexOf? id)
    (hnew : id ∈ e.steps.map (·.id) → id ∈ before.ids) :
    (s.followSelection event).selection = s.routine.indexOf? id := by
  have hrun := h.ids_eq
  have hfits : Splice.Fits ⟨e.index, e.count, e.steps.map (·.id)⟩ before.ids := by
    show e.index + e.count ≤ (before.steps.map (·.id)).length
    rw [List.length_map]
    exact h.fits
  cases hs : s.selection with
  | none =>
    rw [hs, eq_comm, Routine.indexOf?_eq_none_iff] at hsel
    rw [followSelection_of_none hs, hs, eq_comm, Routine.indexOf?_eq_none_iff, hids, hrun]
    intro hmem
    simp only [Splice.run, List.mem_append] at hmem
    rcases hmem with (hmem | hmem) | hmem
    · exact hsel (List.mem_of_mem_take hmem)
    · exact hsel (hnew hmem)
    · exact hsel (List.mem_of_mem_drop hmem)
  | some k =>
    rw [hs, eq_comm, Routine.indexOf?_eq_some_iff hb] at hsel
    rw [selection_followSelection_of_some hs, h.length_removed, h.length_inserted, h.index_eq]
    by_cases hlt : k < e.index
    · rw [if_pos hlt, eq_comm, Routine.indexOf?_congr hids, Routine.indexOf?_eq_some_iff hr, hrun,
        Splice.getElem?_run_left hfits hlt, hsel]
    · rw [if_neg hlt]
      by_cases hle : e.index + e.count ≤ k
      · rw [if_pos hle, eq_comm, Routine.indexOf?_congr hids, Routine.indexOf?_eq_some_iff hr, hrun]
        have := Splice.getElem?_run_right hfits hle
        rw [hsel] at this
        simpa using this
      · -- the selected step was replaced, so its identity is looked up
        rw [if_neg hle, h.removed_eq, List.getElem?_take_of_lt (by omega), List.getElem?_drop,
          show e.index + (k - e.index) = k by omega]
        rw [Routine.ids, List.getElem?_map, Option.map_eq_some_iff] at hsel
        obtain ⟨old, hold, rfl⟩ := hsel
        rw [hold]
        rfl

/-- The selection is where an identity is, one that was handed out before. -/
structure Tracks (s : Session) (id : ActionId) (supply : IdSupply) : Prop where
  sound : s.routine.Sound
  tracked : s.selection = s.routine.indexOf? id
  known : id.bits.toNat < supply.next

theorem mem_of_mem_freshSteps {cs : List ScannedCall} {bias : Nat} {supply : IdSupply}
    {replaced : List Step} (hid : id.bits.toNat < supply.next)
    (hn : supply.next + cs.length ≤ identityCount)
    (h : id ∈ (freshSteps cs bias supply replaced).map (·.id)) : id ∈ replaced.map (·.id) := by
  obtain ⟨x, hx, rfl⟩ := List.mem_map.1 h
  rcases Rescan.id_of_mem_inheritIds hx with hnew | hold
  · rw [List.map_map] at hnew
    obtain ⟨p, hp, hpid⟩ := List.mem_map.1 hnew
    have hle := List.le_snd_of_mem_zipIdx hp
    have hlt := List.snd_lt_add_of_mem_zipIdx hp
    have hbits : x.id.bits.toNat = p.2 := by
      rw [← hpid]
      exact Nat.mod_eq_of_lt (Nat.lt_of_lt_of_le hlt hn)
    omega
  · exact hold

theorem Tracks.mono {supply supply' : IdSupply} (h : s.Tracks id supply)
    (hle : supply.next ≤ supply'.next) : s.Tracks id supply' :=
  ⟨h.sound, h.tracked, Nat.lt_of_lt_of_le h.known hle⟩

theorem Tracks.followSelection {origin : Origin} {supply : IdSupply} (h : s.Tracks id supply)
    (hedit : s.routine.edit e origin = .ok (some event, routine)) (text : Text)
    (hnew : id ∈ e.steps.map (·.id) → id ∈ s.routine.ids) :
    (({ s with text, routine } : Session).followSelection event).Tracks id supply := by
  have hsound := h.sound.edit hedit
  obtain ⟨selection, hselection⟩ := followSelection_eq ({ s with text, routine } : Session) event
  have hfollow := @selection_followSelection { s with text, routine } s.routine routine event e id
    (Routine.tells_edit hedit) rfl (Routine.ids_nodup h.sound) (Routine.ids_nodup hsound) h.tracked hnew
  rw [hselection] at hfollow ⊢
  exact ⟨hsound, hfollow, h.known⟩

theorem Tracks.takeChange {c : TextChange} {told : List ViewMessage} {supply supply' : IdSupply}
    (h : s.Tracks id supply) (hn : supply'.next ≤ identityCount)
    (hrun : (s.takeChange c).run supply = (.ok (t, told), supply')) : t.Tracks id supply' := by
  cases hd : s.desynced with
  | true =>
    rw [run_takeChange_desynced hd] at hrun
    cases hrun
    exact ⟨h.sound, h.tracked, h.known⟩
  | false =>
    obtain ⟨u, bias, plan, hplan, hsteps⟩ := run_planned s.steps c s.text supply
    rw [run_takeChange_planned hd, hplan] at hrun
    obtain ⟨ht, rfl⟩ := Prod.mk.inj hrun
    refine Tracks.mono ?_ (Nat.le_add_right supply.next _)
    have hids : (s.routine.drift plan.driftFrom plan.drift).ids = s.routine.ids :=
      s.routine.ids_drift _ _
    have hdrifted : ({ s with routine := s.routine.drift plan.driftFrom plan.drift } : Session).Tracks
        id supply := by
      refine ⟨?_, h.tracked.trans (Routine.indexOf?_congr hids.symm id), h.known⟩
      rw [Routine.Sound, Routine.history_drift]
      exact h.sound
    cases takesPlanned_of_eq ht with
    | lost _ => exact ⟨h.sound, h.tracked, h.known⟩
    | idle _ _ => exact ⟨hdrifted.sound, hdrifted.tracked, h.known⟩
    | edited _ hedit hfollow =>
      -- the calls that were read anew have new identities, or those of the steps they replace
      rw [← hfollow]
      refine hdrifted.followSelection hedit (c.apply s.text) fun hmem => ?_
      rw [hsteps] at hmem
      obtain ⟨y, hy, rfl⟩ := List.mem_map.1 (mem_of_mem_freshSteps h.known hn hmem)
      rw [hids]
      exact List.mem_map_of_mem (List.mem_of_mem_drop (List.mem_of_mem_take hy))

theorem run_takeChanges_cons (s : Session) (c : TextChange) (cs : List TextChange)
    (messages : List ViewMessage) (supply : IdSupply) :
    (∃ e, (s.takeChanges (c :: cs) messages).run supply = ((s, .error e), supply)) ∨
      ∃ t told supply₁, (s.takeChange c).run supply = (.ok (t, told), supply₁) ∧
        (s.takeChanges (c :: cs) messages).run supply
          = (t.takeChanges cs (messages ++ told)).run supply₁ := by
  cases hf : c.fits s.text with
  | false => exact .inl ⟨_, run_takeChanges_of_not_fits hf cs messages supply⟩
  | true =>
    obtain ⟨t, told, supply₁, hrun, -⟩ := s.exists_takes c supply
    exact .inr ⟨t, told, supply₁, hrun, run_takeChanges_of_taken hf hrun cs messages⟩

theorem next_le_of_takeChange {c : TextChange} {x : Except SessionError (Session × List ViewMessage)}
    {supply supply' : IdSupply} (h : (s.takeChange c).run supply = (x, supply')) :
    supply.next ≤ supply'.next := by
  cases hd : s.desynced with
  | true =>
    rw [run_takeChange_desynced hd] at h
    rw [← (Prod.mk.inj h).2]
  | false =>
    obtain ⟨u, bias, plan, hplan, -⟩ := run_planned s.steps c s.text supply
    rw [run_takeChange_planned hd, hplan] at h
    rw [← (Prod.mk.inj h).2]
    exact Nat.le_add_right _ _

theorem next_le_of_takeChanges {cs : List TextChange} {messages : List ViewMessage}
    {p : Session × Except SessionError (List ViewMessage)} {supply supply' : IdSupply}
    (h : (s.takeChanges cs messages).run supply = (p, supply')) : supply.next ≤ supply'.next := by
  induction cs generalizing s messages supply with
  | nil => rw [← (Prod.mk.inj h).2]
  | cons c cs ih =>
    rcases run_takeChanges_cons s c cs messages supply with ⟨e, hrun⟩ | ⟨u, told, supply₁, hone, hrun⟩
    · rw [← (Prod.mk.inj (hrun.symm.trans h)).2]
    · exact Nat.le_trans (next_le_of_takeChange hone) (ih (hrun.symm.trans h))

theorem Tracks.takeChanges {cs : List TextChange} {messages : List ViewMessage}
    {x : Except SessionError (List ViewMessage)} {supply supply' : IdSupply}
    (h : s.Tracks id supply) (hn : supply'.next ≤ identityCount)
    (hrun : (s.takeChanges cs messages).run supply = ((t, x), supply')) : t.Tracks id supply' := by
  induction cs generalizing s messages supply with
  | nil =>
    cases hrun
    exact h
  | cons c cs ih =>
    rcases run_takeChanges_cons s c cs messages supply with ⟨e, hcons⟩ | ⟨u, told, supply₁, hone, hcons⟩
    · cases hcons.symm.trans hrun
      exact h
    · have hrest := hcons.symm.trans hrun
      exact ih (h.takeChange (Nat.le_trans (next_le_of_takeChanges hrest) hn) hone) hrest

theorem next_le_of_resync {x : Option Session} {supply supply' : IdSupply}
    (h : s.resync.run supply = (x, supply')) : supply.next ≤ supply'.next := by
  rw [← (Prod.mk.inj ((run_resync_eq s supply).symm.trans h)).2]
  exact Nat.le_add_right _ _

/-- A session that is found again keeps its selection by index. -/
theorem selection_of_resync {supply supply' : IdSupply} (h : s.resync.run supply = (some t, supply')) :
    t.selection = s.selection.filter fun index => index < t.routine.size := by
  obtain ⟨x, routine, -, rfl⟩ := exists_of_resync h
  rfl

/-- A lost session is found again by changes that bring the pose back. -/
theorem run_notice_regained {u : Session} {n : HostNotice} {messages : List ViewMessage}
    {supply supply₁ : IdSupply} (hecho : ∀ seq ∈ n.echo, seq ∉ s.pending)
    (htakes : (s.takeChanges n.changes []).run supply = ((u, .ok messages), supply₁))
    (hu : u.routine.Sound) (hd : u.desynced = true)
    (hpose : ((scan u.text).head?.any fun c => c.action.kind.establishesPose) = true)
    (hvalid : u.routine.validate (u.resyncEdit supply₁) = .ok ()) :
    ∃ t, (s.notice n).run supply
        = ((t, .ok [t.snapshot]), ⟨supply₁.next + (scan u.text).length⟩) ∧
      t.text = u.text ∧ t.desynced = false ∧ t.steps = (u.resyncEdit supply₁).steps ∧
      t.selection = u.selection.filter fun index => index < t.routine.size := by
  obtain ⟨x, hresync, ⟨-, hnopose | hinvalid⟩ | ⟨t, rfl, -, htext, -, hd', -, hsteps⟩⟩ :=
    run_resync hu supply₁
  · simp [hpose] at hnopose
  · exact absurd hvalid hinvalid
  · refine ⟨t, ?_, htext, hd', hsteps, selection_of_resync hresync⟩
    rw [run_notice hecho htakes, run_conclude_of_desynced hd _ hresync]
    rfl

theorem Attended.selectIndex {k : Nat} (h : s.Attended) (hk : k < s.routine.size)
    (hsize : s.text.size ≤ maxPlace) : ({ s with selection := some k } : Session).Attended := by
  have hselected : ((s.respond (.select (.index k))).run ⟨0⟩).1 = { s with selection := some k } := by
    show s.orSame (s.select (.index k)) = _
    simp only [select, hk, if_true]
    rfl
  rw [← hselected]
  refine .respond _ h fun t ht => ?_
  rw [heldTexts, hselected, List.mem_singleton] at ht
  · exact ht ▸ hsize
  · exact nofun

theorem Tracks.notice {n : HostNotice} {x : Except SessionError (List ViewMessage)}
    {supply supply' : IdSupply} (h : s.Tracks id supply) (hn : supply'.next ≤ identityCount)
    (hrun : (s.notice n).run supply = ((t, x), supply')) :
    t.selection = t.routine.indexOf? id ∨ x = .ok [t.snapshot] := by
  by_cases hecho : ∃ seq ∈ n.echo, seq ∈ s.pending
  · obtain ⟨seq, hseq, hpending⟩ := hecho
    obtain ⟨echo, cs⟩ := n
    obtain rfl : echo = some seq := hseq
    rw [run_notice_echo hpending] at hrun
    cases hrun
    exact .inl h.tracked
  · have hecho : ∀ seq ∈ n.echo, seq ∉ s.pending := fun seq hseq hp => hecho ⟨seq, hseq, hp⟩
    cases htakes : (s.takeChanges n.changes []).run supply with
    | mk p supply₁ =>
      obtain ⟨u, y⟩ := p
      rw [run_notice hecho htakes] at hrun
      cases y with
      | error e =>
        cases hrun
        exact .inl (h.takeChanges hn htakes).tracked
      | ok messages =>
        cases hd : u.desynced with
        | false =>
          rw [run_conclude_of_inStep hd] at hrun
          cases hrun
          exact .inl (h.takeChanges hn htakes).tracked
        | true =>
          cases hresync : u.resync.run supply₁ with
          | mk v supply₂ =>
            rw [run_conclude_of_desynced hd _ hresync] at hrun
            cases v with
            | some v =>
              cases hrun
              exact .inr rfl
            | none =>
              cases hrun
              have hle := Nat.le_trans (next_le_of_resync hresync) hn
              exact .inl (h.takeChanges hle htakes).tracked

theorem Poses.selection_eq {x : Except SessionError (Option HostEdit)} (h : s.Poses t x) :
    t.selection = s.selection ∧ t.routine.ids = s.routine.ids := by
  have hposed : ∀ {pose previous : Pose} {routine : Routine},
      s.routine.setStartPose pose = .ok (previous, routine) → routine.ids = s.routine.ids := by
    intro pose previous routine hpose
    obtain ⟨first, rest, action, hsteps, hsteps'⟩ := Routine.steps_setStartPose hpose
    rw [Routine.ids, Routine.ids, hsteps, hsteps']
    rfl
  cases h with
  | refused => exact ⟨rfl, rfl⟩
  | unwritten hpose _ => exact ⟨rfl, hposed hpose⟩
  | @written _ _ routine first rest action a site edits _ _ _ hpose _ _ _ _ hissue =>
    cases hissue
    have hwritten := entries_write { s with routine } ⟨edits, [(first.id, site)]⟩
    exact ⟨rfl, (Routine.ids_eq_of_entries hwritten).trans (hposed hpose)⟩

theorem Writes.selection_eq {host : HostEdit} {message : ViewMessage} (h : s.Writes t host message)
    (hs : s.routine.Sound) (hsel : s.selection = s.routine.indexOf? id) (hid : id ∈ s.routine.ids) :
    t.selection = t.routine.indexOf? id := by
  obtain ⟨-, -, htells, hsound, hcommit⟩ := h
  rename_i e r event routine
  have hwritten := Routine.ids_eq_of_entries (entries_write { s with routine } r)
  have hfollow := @selection_followSelection (({ s with routine } : Session).write r) s.routine routine
    event e id htells hwritten (Routine.ids_nodup hs) (Routine.ids_nodup (hsound hs)) hsel fun _ => hid
  rw [commit_eq] at hcommit
  cases hcommit
  obtain ⟨selection, hselection⟩ :=
    followSelection_eq (({ s with routine } : Session).write r) event
  rw [hselection] at hfollow ⊢
  exact hfollow

theorem Gives.selection_eq {x : Outcome} (h : s.Gives x) (hs : s.routine.Sound)
    (hsel : s.selection = s.routine.indexOf? id) (hid : id ∈ s.routine.ids) :
    (s.settle .ofOutcome x).1.selection = (s.settle .ofOutcome x).1.routine.indexOf? id := by
  cases x with
  | error e => exact hsel
  | ok p =>
    obtain ⟨t, out⟩ := p
    rcases h t out rfl with ⟨rfl, -⟩ | ⟨host, message, -, hwrites⟩
    · exact hsel
    · exact hwrites.selection_eq hs hsel hid

/-- Whether a request asks for another selection. -/
def Request.selects : Request → Bool
  | .select _ | .clearSelection => true
  | _ => false

/-- A selected step stays selected wherever it goes, and nothing is selected once it is gone, as long
as the view is not told the whole list anew. -/
theorem selection_follows_identity {i : Nat} {x : Step} {q : Request}
    {r : Except SessionError Answer} {supply supply' : IdSupply} (hs : s.Attended)
    (hi : s.selection = some i) (hx : s.steps[i]? = some x) (hid : x.id.bits.toNat < supply.next)
    (hn : supply'.next ≤ identityCount) (hq : q.selects = false)
    (h : (s.answer q).run supply = ((t, r), supply'))
    (htold : ∀ m ∈ toldBy r, m.isSnapshot = false) :
    t.selection = t.routine.indexOf? x.id := by
  have hk := hs.kept
  have hsel : s.selection = s.routine.indexOf? x.id := by
    rw [hi, eq_comm, Routine.indexOf?_eq_some_iff (Routine.ids_nodup hk.sound), Routine.ids,
      List.getElem?_map]
    exact Option.map_eq_some_iff.2 ⟨x, hx, rfl⟩
  have hmem : x.id ∈ s.routine.ids := List.mem_map_of_mem (List.mem_of_getElem? hx)
  cases q with
  | notice n =>
    cases hnotice : (s.notice n).run supply with
    | mk p supply₁ =>
      obtain ⟨u, y⟩ := p
      replace h := (StateT.run_bind _ _ _).symm.trans h
      rw [hnotice] at h
      cases h
      rcases Tracks.notice ⟨hk.sound, hsel, hid⟩ hn hnotice with htracked | rfl
      · exact htracked
      · exact absurd (htold _ (List.mem_singleton_self _)) nofun
  | edit e =>
    obtain rfl := congrArg (fun p => p.1.1) h
    exact (s.gives_edit e).selection_eq hk.sound hsel hmem
  | undo =>
    obtain rfl := congrArg (fun p => p.1.1) h
    exact (s.gives_revisit .back).selection_eq hk.sound hsel hmem
  | redo =>
    obtain rfl := congrArg (fun p => p.1.1) h
    exact (s.gives_revisit .forth).selection_eq hk.sound hsel hmem
  | setStartPose pose =>
    cases hmoved : s.setStartPose pose with
    | mk w y =>
      obtain ⟨hselection, hids⟩ := (poses_of_setStartPose hmoved).selection_eq
      obtain rfl : w = t := (congrArg Prod.fst hmoved).symm.trans (congrArg (fun p => p.1.1) h)
      rw [hselection, hsel, Routine.indexOf?_congr hids]
  | select which => exact absurd hq nofun
  | clearSelection => exact absurd hq nofun

/-- The text behind the selected call moves it on, one change after another. -/
theorem selection_follows_identity_moved :
    let extend : Request :=
      .notice ⟨none, [⟨24, 0, "\n\n".toList⟩, ⟨25, 0, "auton::wait(5);".toList⟩]⟩
    ∃ (s t : Session) (r : Except SessionError Answer) (supply' : IdSupply), s.Attended ∧
      s.selection = some 1 ∧ (s.answer extend).run ⟨2⟩ = ((t, r), supply') ∧
      t.steps.map (·.kind) = [.setPose, .wait, .shoot] ∧ t.selection = t.routine.indexOf? ⟨1⟩ ∧
      t.selection = some 2 := by
  intro extend
  let shoot : Request := .edit (.insert 1 [⟨⟨1⟩, .shoot, none⟩])
  have hall : ((Session.start "auton::setPose(0, 0, 0);".toList).run ⟨0⟩).1.toOption.any (fun s₀ =>
      let s₁ := ((s₀.respond shoot).run ⟨2⟩).1
      let s₂ := ((s₁.respond (.select (.index 1))).run ⟨2⟩).1
      let p := (s₂.answer extend).run ⟨2⟩
      (s₀.heldTexts shoot ⟨2⟩ ++ s₁.heldTexts (.select (.index 1)) ⟨2⟩).all (fun t => t.size ≤ maxPlace)
        && s₂.selection == some 1 && (s₂.steps[1]?.map (·.id)) == some ⟨1⟩
        && p.2.next ≤ identityCount
        && (toldBy p.1.2).all (!·.isSnapshot)
        && p.1.1.steps.map (·.kind) == [.setPose, .wait, .shoot]
        && p.1.1.routine.indexOf? ⟨1⟩ == some 2) = true := by
    decide +kernel
  obtain ⟨s₀, hs₀, hall⟩ := (Option.any_eq_true _ _).1 hall
  rw [Result.toOption_eq_some_iff] at hs₀
  simp only [Bool.and_eq_true, List.all_eq_true, List.mem_append, decide_eq_true_eq, beq_iff_eq,
    Bool.not_eq_true'] at hall
  obtain ⟨⟨⟨⟨⟨⟨hsizes, hsel⟩, hx⟩, hn⟩, htold⟩, hkinds⟩, hindex⟩ := hall
  have h₁ := @Attended.respond s₀ ⟨2⟩ shoot (.start (Prod.ext hs₀ rfl)) fun t ht => hsizes t (.inl ht)
  have h₂ := @Attended.respond _ ⟨2⟩ (.select (.index 1)) h₁ fun t ht => hsizes t (.inr ht)
  obtain ⟨x, hx, hid⟩ := Option.map_eq_some_iff.1 hx
  have hknown : x.id.bits.toNat < 2 := by rw [hid]; decide
  have hfollow := selection_follows_identity (q := extend) h₂ hsel hx hknown hn rfl rfl htold
  rw [hid] at hfollow
  exact ⟨_, _, _, _, h₂, hsel, rfl, hkinds, hfollow, hfollow.trans hindex⟩

/-- The selected call is replaced while the pose is lost. Once the pose is back another step is
selected, for it stands where the selected one stood in the list. -/
theorem selection_kept_by_index_of_regained :
    let pose : Text := "auton::setPose(0, 0, 0);".toList
    let shoot : Text := "auton::shoot();".toList
    let wait : Text := "auton::wait(5);".toList
    let n : HostNotice := ⟨none, [⟨0, 5, []⟩, ⟨19, 15, wait⟩, ⟨0, 0, "auton".toList⟩]⟩
    ∃ (s t : Session) (x : Step) (r : Except SessionError (List ViewMessage)) (supply' : IdSupply),
      s.Attended ∧ s.text = pose ++ shoot ∧ s.selection = some 1 ∧ s.steps[1]? = some x ∧
      x.id.bits.toNat < 2 ∧ supply'.next ≤ identityCount ∧
      (s.notice n).run ⟨2⟩ = ((t, r), supply') ∧ t.text = pose ++ wait ∧ t.desynced = false ∧
      t.routine.indexOf? x.id = none ∧ t.selection = some 1 := by
  intro pose shoot wait n
  -- each part holds one call, so its scan evaluates where that of the whole text does not
  have hlast : pose.getLast? = some ';' := by decide +kernel
  have hclosed : ∀ c ∈ pose.getLast?, c = ';' := fun c hc => Option.some.inj (hc.symm.trans hlast)
  have hscan : scan (pose ++ shoot)
      = scan pose ++ (scan shoot).map (ScannedCall.shift pose.size) :=
    scan_append (by decide +kernel) (.closed hclosed)
  have hscan' : scan (pose ++ wait) = scan pose ++ (scan wait).map (ScannedCall.shift pose.size) :=
    scan_append (by decide +kernel) (.closed hclosed)
  let found := scan pose ++ (scan wait).map (ScannedCall.shift pose.size)
  have hall : (Routine.ofSteps (((scan pose
        ++ (scan shoot).map (ScannedCall.shift pose.size)).zipIdx 0).map
          fun p => (p.1.shift 0).stepWith p.2)).toOption.any (fun routine =>
      let s : Session := ⟨pose ++ shoot, routine, [], some 1, false⟩
      let p := (s.takeChanges n.changes []).run ⟨2⟩
      let steps := freshSteps found 0 p.2 p.1.1.steps
      (s.steps[1]?.map (·.id)) == some ⟨1⟩ && (pose ++ shoot).size ≤ maxPlace && p.2.next == 2
        && p.1.2 == .ok [] && p.1.1.text == pose ++ wait && p.1.1.desynced
        && p.1.1.selection == some 1 && (found.head?.any fun c => c.action.kind.establishesPose)
        && p.1.1.routine.validate ⟨0, p.1.1.routine.size, steps⟩ == .ok ()
        && steps.map (·.id) == [⟨0⟩, ⟨3⟩]) = true := by
    decide +kernel
  rw [← hscan] at hall
  obtain ⟨routine, hr, hall⟩ := (Option.any_eq_true _ _).1 hall
  rw [Result.toOption_eq_some_iff] at hr
  simp only [Bool.and_eq_true, decide_eq_true_eq, beq_iff_eq] at hall
  obtain ⟨⟨⟨⟨⟨⟨⟨⟨⟨hx, hsize⟩, hnext⟩, hmessages⟩, htext⟩, hd⟩, hsel⟩, hpose⟩, hvalid⟩, hids⟩ := hall
  let s : Session := ⟨pose ++ shoot, routine, [], some 1, false⟩
  obtain ⟨x, hx, hid⟩ := Option.map_eq_some_iff.1 hx
  have hattended : s.Attended :=
    Attended.selectIndex (.start (@start_eq_ok _ _ ⟨0⟩ hr)) (List.getElem?_eq_some_iff.1 hx).1 hsize
  have hknown : x.id.bits.toNat < 2 := by rw [hid]; decide
  generalize htakes : (s.takeChanges n.changes []).run ⟨2⟩ = p at *
  obtain ⟨⟨u, y⟩, supply₁⟩ := p
  obtain rfl : supply₁ = ⟨2⟩ := congrArg IdSupply.mk hnext
  obtain rfl : y = .ok [] := hmessages
  have htracked : s.selection = s.routine.indexOf? x.id := by
    rw [eq_comm, Routine.indexOf?_eq_some_iff (Routine.ids_nodup hattended.kept.sound), Routine.ids,
      List.getElem?_map]
    exact Option.map_eq_some_iff.2 ⟨x, hx, rfl⟩
  have hsound := (Tracks.takeChanges ⟨hattended.kept.sound, htracked, hknown⟩ (by decide) htakes).sound
  have hfound : scan u.text = found := by rw [show u.text = pose ++ wait from htext, hscan']
  obtain ⟨t, hrun, ht, htd, hsteps, hselection⟩ := run_notice_regained (by simp [n]) htakes
    hsound hd (by rw [hfound]; exact hpose) (by rw [resyncEdit, hfound]; exact hvalid)
  have hids' : t.routine.ids = [⟨0⟩, ⟨3⟩] := by
    have := congrArg (List.map (·.id)) hsteps
    rw [resyncEdit, hfound] at this
    exact this.trans hids
  have hsize : t.routine.size = 2 := by
    have := congrArg List.length hids'
    rwa [Routine.ids, List.length_map] at this
  rw [show u.selection = some 1 from hsel, hsize] at hselection
  refine ⟨s, t, x, _, _, hattended, rfl, rfl, hx, hknown, ?_, hrun, ht.trans htext, htd, ?_,
    hselection⟩
  · rw [hfound]
    decide +kernel
  · rw [Routine.indexOf?_eq_none_iff, hids', hid]
    decide

end Session

end RoutineSync
