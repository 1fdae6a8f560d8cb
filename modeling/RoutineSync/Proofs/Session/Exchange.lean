import RoutineSync.Proofs.Session.Answers
/-!
A host and its session. The host carries out at once what the session asks of it, change by change,
tells the session of its own changes, and echoes what it carried out whenever it likes and in any
order. Both have the same text all the time.
-/
set_option autoImplicit false

namespace RoutineSync

namespace Session

/-- An edit goes to the host under the next number, and the session has made it in its own text. -/
structure Issues (s : Session) (host : HostEdit) (t : Session) : Prop where
  seq_eq : host.seq = s.routine.seq + 1
  seq_next : t.routine.seq = host.seq
  fit : TextEdit.Fit 0 host.edits s.text
  text_eq : t.text = TextEdit.applyAll host.edits s.text
  pending_eq : t.pending = s.pending ++ [host.seq]

/-- Nothing goes to the host, which has nothing to do either. -/
structure Rests (s t : Session) : Prop where
  text_eq : t.text = s.text
  pending_eq : t.pending = s.pending
  seq_eq : t.routine.seq = s.routine.seq

theorem Writes.issues {s t : Session} {host : HostEdit} {message : ViewMessage}
    (h : s.Writes t host message) (hk : s.Kept) : s.Issues host t := by
  obtain ⟨hd, hr, htells, -, hcommit⟩ := h
  rename_i e r event routine
  obtain ⟨sites, hsites, ha⟩ := hk.inStep hd
  rw [commit_eq] at hcommit
  cases hcommit
  refine ⟨htells.seq_eq, ?_, Rewrite.fit_of_synthesize hsites ha hr, rfl, rfl⟩
  exact (seq_write { s with routine } r).trans htells.seq_next

inductive Sends (s : Session) : Option HostEdit → Session → Prop where
  | nothing {t : Session} : s.Rests t → Sends s none t
  | edit {host : HostEdit} {t : Session} : s.Issues host t → Sends s (some host) t

def askedOf : Except SessionError Answer → Option HostEdit
  | .ok a => a.host
  | .error _ => none

theorem askedOf_map_mk (x : Except SessionError (List ViewMessage)) :
    askedOf (x.map (Answer.mk none)) = none := by
  cases x <;> rfl

theorem Poses.sends {s t : Session} {x : Except SessionError (Option HostEdit)} (h : s.Poses t x)
    (hk : s.Kept) : s.Sends (askedOf (x.map fun host => ⟨host, []⟩)) t := by
  cases h with
  | refused => exact .nothing ⟨rfl, rfl, rfl⟩
  | unwritten hpose hx =>
    rcases x with e | _ | host
    · exact .nothing ⟨rfl, rfl, Routine.seq_setStartPose hpose⟩
    · exact .nothing ⟨rfl, rfl, Routine.seq_setStartPose hpose⟩
    · exact absurd rfl (hx host)
  | @written _ _ routine first rest action a site edits _ host hd hpose hsteps _ hsite hpatch
      hissue =>
    obtain ⟨hp, as, ha⟩ := hk.patchesTo hd hsteps hsite hpatch
    have hseq : (({ s with routine } : Session).write ⟨edits, [(first.id, site)]⟩).routine.seq
        = s.routine.seq := (seq_write _ _).trans (Routine.seq_setStartPose hpose)
    cases hissue
    exact .edit ⟨congrArg (· + 1) hseq, rfl, (hp.carries ha).fit, rfl, rfl⟩

theorem Gives.sends {s : Session} {x : Outcome} (h : s.Gives x) (hk : s.Kept) :
    s.Sends (askedOf (s.settle .ofOutcome x).2) (s.settle .ofOutcome x).1 := by
  cases x with
  | error e => exact .nothing ⟨rfl, rfl, rfl⟩
  | ok p =>
    obtain ⟨t, out⟩ := p
    rcases h t out rfl with ⟨rfl, rfl⟩ | ⟨host, message, rfl, hwrites⟩
    · exact .nothing ⟨rfl, rfl, rfl⟩
    · exact .edit (hwrites.issues hk)

theorem sends_answer {s : Session} (hk : s.Kept) {q : Request} (hq : ∀ n, q ≠ .notice n)
    (supply : IdSupply) :
    s.Sends (askedOf ((s.answer q).run supply).1.2) ((s.answer q).run supply).1.1 := by
  cases q with
  | notice n => exact absurd rfl (hq n)
  | edit e => exact (s.gives_edit e).sends hk
  | undo => exact (s.gives_revisit .back).sends hk
  | redo => exact (s.gives_revisit .forth).sends hk
  | setStartPose pose => exact (poses_of_setStartPose rfl).sends hk
  | select which =>
    show s.Sends (askedOf (s.settle (fun _ => .silent) (s.select which)).2)
      (s.settle (fun _ => .silent) (s.select which)).1
    cases h : s.select which with
    | error e => exact .nothing ⟨rfl, rfl, rfl⟩
    | ok p =>
      obtain ⟨t, range⟩ := p
      obtain ⟨selection, rfl⟩ := select_eq h
      exact .nothing ⟨rfl, rfl, rfl⟩
  | clearSelection => exact .nothing ⟨rfl, rfl, rfl⟩

theorem exists_run_own {s : Session} {cs : List TextChange}
    (hfits : TextChange.fitAll s.text cs = true) (supply : IdSupply) :
    ∃ t x supply', (s.notice ⟨none, cs⟩).run supply = ((t, x), supply') ∧
      t.text = TextChange.applyAll s.text cs ∧ t.pending = s.pending ∧
      s.routine.seq ≤ t.routine.seq ∧ ∀ range size, x ≠ .error (.invalidChange range size) := by
  obtain ⟨t, x, supply', hrun, hnotices⟩ := s.exists_notices ⟨none, cs⟩ supply
  refine ⟨t, x, supply', hrun, ?_⟩
  cases hnotices with
  | echo hseq _ => exact absurd hseq nofun
  | @refused _ fore rear c told _ hchanges hall hc =>
    -- the change that is refused is one of those that fit
    obtain ⟨-, htext, -⟩ := hall.kept
    obtain rfl : cs = fore ++ c :: rear := hchanges
    rw [TextChange.fitAll_append, TextChange.fitAll, ← htext, hc] at hfits
    simp at hfits
  | taken _ hall _ =>
    obtain ⟨-, htext, hpending, hseq, -⟩ := hall.kept
    exact ⟨htext, hpending, hseq, by simp⟩
  | lost _ hall _ =>
    obtain ⟨-, htext, hpending, hseq, -⟩ := hall.kept
    exact ⟨htext, hpending, hseq, by simp⟩
  | regained _ hall _ hresync =>
    obtain ⟨-, htext, hpending, hseq, -⟩ := hall.kept
    obtain ⟨htext', hpending', hseq', -⟩ := kept_of_resync hresync
    exact ⟨htext'.trans htext, hpending'.trans hpending, Nat.le_trans hseq hseq', by simp⟩

end Session

/-- A host, with the numbers of the edits that it carried out and of those that it has echoed. -/
structure Host where
  text : Text
  issued : List Nat
  echoed : List Nat

structure Exchange where
  host : Host
  session : Session

namespace Host
open Session

/-- A host tells of changes that fit its own text, and echoes each edit once. -/
def May (h : Host) : Request → Prop
  | .notice ⟨none, cs⟩ => TextChange.fitAll h.text cs = true
  | .notice ⟨some seq, _⟩ => seq ∈ h.issued ∧ seq ∉ h.echoed
  | _ => True

def carryOut (h : Host) : Option HostEdit → Host
  | none => h
  | some e => { h with
    text := TextChange.applyAll h.text (TextEdit.toChanges e.edits)
    issued := h.issued ++ [e.seq] }

def after (h : Host) (q : Request) (x : Except SessionError Answer) : Host :=
  match q with
  | .notice ⟨none, cs⟩ => { h with text := TextChange.applyAll h.text cs }
  | .notice ⟨some seq, _⟩ => { h with echoed := seq :: h.echoed }
  | _ => h.carryOut (askedOf x)

end Host

namespace Exchange
open Session

def step (x : Exchange) (q : Request) (supply : IdSupply) : Exchange :=
  let r := ((x.session.answer q).run supply).1
  ⟨x.host.after q r.2, r.1⟩

/-- What a host and a session come to that start from one text. -/
inductive Reachable : Exchange → Prop where
  | start {t : Text} {s : Session} {supply supply' : IdSupply} :
      (Session.start t).run supply = (.ok s, supply') → Reachable ⟨⟨t, [], []⟩, s⟩
  | step {x : Exchange} {supply : IdSupply} (q : Request) : Reachable x → x.host.May q →
      (∀ t ∈ x.session.heldTexts q supply, t.size ≤ maxPlace) → Reachable (x.step q supply)

structure Agrees (x : Exchange) : Prop where
  kept : x.session.Kept
  text_eq : x.host.text = x.session.text
  pending_eq : x.session.pending = x.host.issued.filter fun seq => seq ∉ x.host.echoed
  increasing : x.host.issued.Pairwise (· < ·)
  issued_le : ∀ seq ∈ x.host.issued, seq ≤ x.session.routine.seq
  echoed_issued : ∀ seq ∈ x.host.echoed, seq ∈ x.host.issued

namespace Agrees
variable {h : Host} {s t : Session}

theorem start {u : Text} {supply supply' : IdSupply}
    (hs : (Session.start u).run supply = (.ok s, supply')) : Agrees ⟨⟨u, [], []⟩, s⟩ := by
  obtain ⟨-, -, htext, hpending, -⟩ := run_start hs
  exact ⟨.start hs, htext.symm, hpending, .nil, nofun, nofun⟩

theorem own {cs : List TextChange} (hx : Agrees ⟨h, s⟩) (hk : t.Kept)
    (htext : t.text = TextChange.applyAll s.text cs) (hpending : t.pending = s.pending)
    (hseq : s.routine.seq ≤ t.routine.seq) :
    Agrees ⟨{ h with text := TextChange.applyAll h.text cs }, t⟩ where
  kept := hk
  text_eq := by
    have : h.text = s.text := hx.text_eq
    rw [this, htext]
  pending_eq := hpending.trans hx.pending_eq
  increasing := hx.increasing
  issued_le seq hm := Nat.le_trans (hx.issued_le seq hm) hseq
  echoed_issued := hx.echoed_issued

theorem mem_pending (hx : Agrees ⟨h, s⟩) {seq : Nat} :
    seq ∈ s.pending ↔ seq ∈ h.issued ∧ seq ∉ h.echoed := by
  have : s.pending = h.issued.filter fun seq => seq ∉ h.echoed := hx.pending_eq
  rw [this, List.mem_filter, decide_eq_true_eq]

theorem echo {seq : Nat} (hx : Agrees ⟨h, s⟩) (hm : seq ∈ h.issued) :
    Agrees ⟨{ h with echoed := seq :: h.echoed }, { s with pending := s.pending.erase seq }⟩ where
  kept := ⟨hx.kept.sound, hx.kept.inStep⟩
  text_eq := hx.text_eq
  pending_eq := by
    have hnodup : (h.issued.filter fun seq => decide (seq ∉ h.echoed)).Nodup :=
      (hx.increasing.imp Nat.ne_of_lt).filter _
    have : s.pending = h.issued.filter fun seq => seq ∉ h.echoed := hx.pending_eq
    show s.pending.erase seq = h.issued.filter fun other => other ∉ seq :: h.echoed
    rw [this, hnodup.erase_eq_filter, List.filter_filter]
    refine List.filter_congr fun other _ => ?_
    rw [Bool.eq_iff_iff]
    simp
  increasing := hx.increasing
  issued_le := hx.issued_le
  echoed_issued other ho := by
    rcases List.mem_cons.1 ho with rfl | ho
    · exact hm
    · exact hx.echoed_issued other ho

theorem applyAll_toChanges_eq {e : HostEdit} (hx : Agrees ⟨h, s⟩) (hissues : s.Issues e t) :
    TextChange.applyAll h.text (TextEdit.toChanges e.edits) = t.text := by
  have : h.text = s.text := hx.text_eq
  -- the host goes from the last edit to the first, the session makes all of them at once
  rw [this, TextEdit.applyAll_toChanges, hissues.text_eq]
  exact hissues.fit.foldr_apply [] rfl

theorem carryOut {asked : Option HostEdit} (hx : Agrees ⟨h, s⟩) (hk : t.Kept)
    (hsends : s.Sends asked t) : Agrees ⟨h.carryOut asked, t⟩ := by
  cases hsends with
  | nothing hrests =>
    exact ⟨hk, hx.text_eq.trans hrests.text_eq.symm, hrests.pending_eq.trans hx.pending_eq,
      hx.increasing, fun seq hm => hrests.seq_eq ▸ hx.issued_le seq hm, hx.echoed_issued⟩
  | @edit e _ hissues =>
    have hlt : ∀ seq ∈ h.issued, seq < e.seq := by
      intro seq hm
      have : seq ≤ s.routine.seq := hx.issued_le seq hm
      rw [hissues.seq_eq]
      omega
    -- only issued numbers are echoed, so the new one is not among them
    have hnew : e.seq ∉ h.echoed := fun hm =>
      Nat.lt_irrefl _ (hlt e.seq (hx.echoed_issued e.seq hm))
    refine ⟨hk, hx.applyAll_toChanges_eq hissues, ?_, ?_, ?_, ?_⟩
    · have : s.pending = h.issued.filter fun seq => seq ∉ h.echoed := hx.pending_eq
      show t.pending = (h.issued ++ [e.seq]).filter fun seq => seq ∉ h.echoed
      rw [hissues.pending_eq, this, List.filter_append]
      simp [hnew]
    · refine List.pairwise_append.2 ⟨hx.increasing, List.pairwise_singleton _ _, ?_⟩
      intro seq hm new hnew
      rw [List.mem_singleton.1 hnew]
      exact hlt seq hm
    · intro seq hm
      show seq ≤ t.routine.seq
      rw [hissues.seq_next]
      rcases List.mem_append.1 hm with hm | hm
      · exact Nat.le_of_lt (hlt seq hm)
      · exact Nat.le_of_eq (List.mem_singleton.1 hm)
    · exact fun seq hm => List.mem_append_left _ (hx.echoed_issued seq hm)

theorem step {x : Exchange} (hx : x.Agrees) {q : Request} {supply : IdSupply} (hq : x.host.May q)
    (hs : ∀ t ∈ x.session.heldTexts q supply, t.size ≤ maxPlace) : (x.step q supply).Agrees := by
  obtain ⟨h, s⟩ := x
  have hkept : ((s.answer q).run supply).1.1.Kept := by
    rw [fst_answer]
    exact hx.kept.respond q supply hs
  cases q with
  | notice n =>
    obtain ⟨echo, cs⟩ := n
    cases echo with
    | none =>
      have hfits : TextChange.fitAll s.text cs = true := by
        rw [← show h.text = s.text from hx.text_eq]
        exact hq
      obtain ⟨t, y, supply', hrun, htext, hpending, hseq, -⟩ := exists_run_own hfits supply
      have ht : ((s.answer (.notice ⟨none, cs⟩)).run supply).1.1 = t := congrArg (·.1.1) hrun
      rw [ht] at hkept
      rw [Exchange.step, ht]
      exact hx.own hkept htext hpending hseq
    | some seq =>
      have hrun := run_notice_echo (hx.mem_pending.2 hq) cs supply
      have ht : ((s.answer (.notice ⟨some seq, cs⟩)).run supply).1.1
          = { s with pending := s.pending.erase seq } := congrArg (·.1.1) hrun
      rw [Exchange.step, ht]
      exact hx.echo hq.1
  | _ => exact hx.carryOut hkept (sends_answer hx.kept (by nofun) supply)

theorem fits_asked {x : Exchange} (hx : x.Agrees) {q : Request} {supply : IdSupply} {e : HostEdit}
    (he : askedOf ((x.session.answer q).run supply).1.2 = some e) :
    TextChange.fitAll x.host.text (TextEdit.toChanges e.edits) = true := by
  have hq : ∀ n, q ≠ .notice n := by
    rintro n rfl
    have hnone : askedOf ((x.session.answer (.notice n)).run supply).1.2 = none :=
      askedOf_map_mk ((x.session.notice n).run supply).1.2
    exact absurd (hnone.symm.trans he) nofun
  have hsends := sends_answer hx.kept hq supply
  rw [he] at hsends
  cases hsends with
  | edit hissues =>
    rw [hx.text_eq]
    exact hissues.fit.fitAll_toChanges [] rfl

end Agrees

theorem Reachable.agrees {x : Exchange} (h : x.Reachable) : x.Agrees := by
  induction h with
  | start h => exact .start h
  | step q _ hq hs ih => exact ih.step hq hs

/-- After every step of every run, in step or not, host and session have the same text, and pending
are the edits that were issued and not echoed, oldest first. Changes of the host fit the session's
text, an echo has no other effect than to remove its number, and the edits that the session asks for
fit the host's text one after another. -/
theorem texts_agree_of_reachable {x : Exchange} (h : x.Reachable) :
    x.host.text = x.session.text ∧
      x.session.pending = x.host.issued.filter (fun seq => seq ∉ x.host.echoed) ∧
      x.session.pending.Pairwise (· < ·) ∧
      (∀ cs supply, x.host.May (.notice ⟨none, cs⟩) → TextChange.fitAll x.session.text cs = true ∧
        ∀ range size, ((x.session.notice ⟨none, cs⟩).run supply).1.2
          ≠ .error (.invalidChange range size)) ∧
      (∀ seq cs supply, x.host.May (.notice ⟨some seq, cs⟩) →
        (x.session.notice ⟨some seq, cs⟩).run supply
          = (({ x.session with pending := x.session.pending.erase seq }, .ok []), supply)) ∧
      ∀ q supply e, askedOf ((x.session.answer q).run supply).1.2 = some e →
        TextChange.fitAll x.host.text (TextEdit.toChanges e.edits) = true := by
  have hx := h.agrees
  refine ⟨hx.text_eq, hx.pending_eq, ?_, fun cs supply hmay => ?_, fun seq cs supply hmay => ?_,
    fun q supply e he => ?_⟩
  · rw [hx.pending_eq]
    exact hx.increasing.filter _
  · have hfits : TextChange.fitAll x.session.text cs = true := by
      rw [← hx.text_eq]
      exact hmay
    obtain ⟨t, y, supply', hrun, -, -, -, hy⟩ := exists_run_own hfits supply
    rw [hrun]
    exact ⟨hfits, hy⟩
  · exact run_notice_echo (hx.mem_pending.2 hmay) cs supply
  · exact hx.fits_asked he

/-- The host's own change gets the number between the two edits, of which the second is echoed
first. -/
theorem texts_agree_of_reachable_echoed :
    let t : Text := "auton::setPose(0, 0, 0);".toList
    let shoot : Request := .edit (.insert 1 [⟨⟨7⟩, .shoot, none⟩])
    let comment : Request := .notice ⟨none, [⟨0, 0, "// start\n".toList⟩]⟩
    let echo : Request := .notice ⟨some 3, []⟩
    ∃ (s : Session) (x : Exchange), ((Session.start t).run ⟨0⟩).1 = .ok s ∧
      x = ((((⟨⟨t, [], []⟩, s⟩ : Exchange).step shoot ⟨1⟩).step comment ⟨1⟩).step .undo ⟨1⟩).step echo
        ⟨1⟩ ∧ x.Reachable ∧ x.host.issued = [1, 3] ∧ x.session.pending = [1] ∧
      x.host.text = "// start\nauton::setPose(0, 0, 0);\nauton::shoot();".toList ∧
      x.host.text = x.session.text := by
  intro t shoot comment echo
  have hall : ((Session.start t).run ⟨0⟩).1.toOption.any (fun s =>
      let x₀ : Exchange := ⟨⟨t, [], []⟩, s⟩
      let x₁ := x₀.step shoot ⟨1⟩
      let x₂ := x₁.step comment ⟨1⟩
      let x₃ := x₂.step .undo ⟨1⟩
      let x₄ := x₃.step echo ⟨1⟩
      (x₀.session.heldTexts shoot ⟨1⟩ ++ x₁.session.heldTexts comment ⟨1⟩
          ++ x₂.session.heldTexts .undo ⟨1⟩).all (fun t => t.size ≤ maxPlace)
        && TextChange.fitAll x₁.host.text [⟨0, 0, "// start\n".toList⟩]
        && decide (3 ∈ x₃.host.issued ∧ 3 ∉ x₃.host.echoed) && x₄.host.issued == [1, 3]
        && x₄.session.pending == [1]
        && x₄.host.text == "// start\nauton::setPose(0, 0, 0);\nauton::shoot();".toList)
      = true := by
    decide +kernel
  obtain ⟨s, hstart, hall⟩ := (Option.any_eq_true _ _).1 hall
  rw [Result.toOption_eq_some_iff] at hstart
  simp only [Bool.and_eq_true, List.all_append, List.all_eq_true, decide_eq_true_eq,
    beq_iff_eq] at hall
  obtain ⟨⟨⟨⟨⟨⟨⟨hs₀, hs₁⟩, hs₂⟩, hfits⟩, hecho⟩, hissued⟩, hpending⟩, htext⟩ := hall
  have h₁ := Reachable.step shoot (.start (Prod.ext hstart rfl)) trivial hs₀
  have h₂ := Reachable.step comment h₁ hfits hs₁
  have h₃ := Reachable.step .undo h₂ trivial hs₂
  have h₄ := @Reachable.step _ ⟨1⟩ echo h₃ hecho nofun
  exact ⟨s, _, hstart, rfl, h₄, hissued, hpending, htext, (texts_agree_of_reachable h₄).1⟩

end Exchange

end RoutineSync
