import RoutineSync.Proofs.Session.Faithful
import RoutineSync.Proofs.Sync.Locality
/-!
Taking over changes of plain text part by part leads where scanning the whole text anew would.
-/
set_option autoImplicit false

namespace RoutineSync

namespace Rescan

/-- An identity is the own one of a scanned step or that of a replaced step of the same kind. -/
theorem origin_of_mem_inheritIds {steps replaced : List Step} {s : Step}
    (h : s ∈ inheritIds steps replaced) :
    s.id ∈ steps.map (·.id) ∨ ∃ r ∈ replaced, r.id = s.id ∧ r.kind = s.kind := by
  fun_induction inheritIds steps replaced with
  | case1 => simp at h
  | case2 a steps replaced i hi ih =>
    obtain ⟨hlt, hkind, -⟩ := List.findIdx?_eq_some_iff_getElem.1 hi
    rcases List.mem_cons.1 h with rfl | h
    · refine .inr ⟨replaced[i], List.getElem_mem hlt, ?_, beq_iff_eq.1 hkind⟩
      simp only [List.getElem?_eq_getElem hlt, Option.map_some, Option.getD_some]
    · rcases ih h with h | ⟨r, hr, hsame⟩
      · exact .inl (List.mem_cons_of_mem _ h)
      · exact .inr ⟨r, List.mem_of_mem_eraseIdx hr, hsame⟩
  | case3 a steps replaced hi ih =>
    rcases List.mem_cons.1 h with rfl | h
    · exact .inl List.mem_cons_self
    · rcases ih h with h | h
      · exact .inl (List.mem_cons_of_mem _ h)
      · exact .inr h

theorem id_of_mem_inheritIds {steps replaced : List Step} {s : Step}
    (h : s ∈ inheritIds steps replaced) :
    s.id ∈ steps.map (·.id) ∨ s.id ∈ replaced.map (·.id) := by
  rcases origin_of_mem_inheritIds h with h | ⟨r, hr, hid, -⟩
  · exact .inl h
  · exact .inr (List.mem_map.2 ⟨r, hr, hid⟩)

theorem nodup_inheritIds {steps replaced : List Step} (hs : (steps.map (·.id)).Nodup)
    (hr : (replaced.map (·.id)).Nodup) (h : ∀ s ∈ steps, s.id ∉ replaced.map (·.id)) :
    ((inheritIds steps replaced).map (·.id)).Nodup := by
  fun_induction inheritIds steps replaced with
  | case1 => exact .nil
  | case2 a steps replaced i hi ih =>
    obtain ⟨hlt, -, -⟩ := List.findIdx?_eq_some_iff_getElem.1 hi
    have hperm : ((replaced[i] :: replaced.eraseIdx i).map (·.id)).Perm (replaced.map (·.id)) := by
      refine List.Perm.map _ ?_
      rw [List.eraseIdx_eq_take_drop_succ]
      refine List.perm_middle.symm.trans ?_
      rw [List.getElem_cons_drop, List.take_append_drop]
    rw [List.map_cons, List.nodup_cons] at hs
    have hr' := hperm.nodup_iff.2 hr
    rw [List.map_cons, List.nodup_cons] at hr'
    have hrest : ∀ s ∈ steps, s.id ∉ (replaced.eraseIdx i).map (·.id) := by
      intro s hm hid
      obtain ⟨r, hr, hid⟩ := List.mem_map.1 hid
      exact h s (List.mem_cons_of_mem _ hm) (List.mem_map.2 ⟨r, List.mem_of_mem_eraseIdx hr, hid⟩)
    simp only [List.getElem?_eq_getElem hlt, Option.map_some, Option.getD_some, List.map_cons,
      List.nodup_cons]
    refine ⟨fun hmem => ?_, ih hs.2 hr'.2 hrest⟩
    obtain ⟨s, hm, hid⟩ := List.mem_map.1 hmem
    rcases id_of_mem_inheritIds hm with hold | hnew
    · obtain ⟨s', hm', hid'⟩ := List.mem_map.1 hold
      refine h s' (List.mem_cons_of_mem _ hm') ?_
      rw [hid', hid]
      exact List.mem_map_of_mem (List.getElem_mem hlt)
    · rw [hid] at hnew
      exact hr'.1 hnew
  | case3 a steps replaced hi ih =>
    rw [List.map_cons, List.nodup_cons] at hs
    rw [List.map_cons, List.nodup_cons]
    refine ⟨fun hmem => ?_, ih hs.2 hr fun s hm => h s (List.mem_cons_of_mem _ hm)⟩
    obtain ⟨s, hm, hid⟩ := List.mem_map.1 hmem
    rcases id_of_mem_inheritIds hm with hold | hnew
    · rw [hid] at hold
      exact hs.1 hold
    · rw [hid] at hnew
      exact h a List.mem_cons_self hnew

end Rescan

def identityCount : Nat := Nat.pow 2 128

/-- Every identity among the steps was handed out before. -/
def HandedOut (supply : IdSupply) (steps : List Step) : Prop :=
  ∀ s ∈ steps, s.id.bits.toNat < supply.next

theorem handedOut_freshSteps {cs : List ScannedCall} {bias : Nat} {supply : IdSupply}
    {replaced : List Step} (h : HandedOut supply replaced) :
    HandedOut ⟨supply.next + cs.length⟩ (freshSteps cs bias supply replaced) := by
  intro s hs
  rcases Rescan.id_of_mem_inheritIds hs with hid | hid
  · rw [List.map_map] at hid
    obtain ⟨p, hp, hid⟩ := List.mem_map.1 hid
    have hlt := List.snd_lt_add_of_mem_zipIdx hp
    have hbits : s.id.bits.toNat = p.2 % identityCount := by
      rw [← hid]
      rfl
    have := Nat.mod_le p.2 identityCount
    simp only
    omega
  · obtain ⟨r, hr, hid⟩ := List.mem_map.1 hid
    have := h r hr
    rw [hid] at this
    simp only
    omega

theorem nodup_freshSteps {cs : List ScannedCall} {bias : Nat} {supply : IdSupply}
    {replaced : List Step} (h : HandedOut supply replaced) (hr : (replaced.map (·.id)).Nodup)
    (hn : supply.next + cs.length ≤ identityCount) :
    ((freshSteps cs bias supply replaced).map (·.id)).Nodup := by
  have hbits : ∀ p ∈ cs.zipIdx supply.next,
      ((p.1.shift bias).stepWith p.2).id.bits.toNat = p.2 ∧ supply.next ≤ p.2 := by
    intro p hp
    have h1 := List.snd_lt_add_of_mem_zipIdx hp
    have h2 := List.le_snd_of_mem_zipIdx hp
    exact ⟨Nat.mod_eq_of_lt (Nat.lt_of_lt_of_le h1 hn), h2⟩
  refine Rescan.nodup_inheritIds ?_ hr ?_
  · rw [List.map_map, List.Nodup, List.pairwise_map]
    have hidx : (cs.zipIdx supply.next).Pairwise fun p q => p.2 ≠ q.2 := by
      have := List.nodup_range' (s := supply.next) (n := cs.length)
      rw [← List.zipIdx_map_snd, List.Nodup, List.pairwise_map] at this
      exact this
    refine hidx.imp_of_mem fun {p q} hp hq hne heq => hne ?_
    rw [← (hbits p hp).1, ← (hbits q hq).1]
    exact congrArg (fun id : ActionId => id.bits.toNat) heq
  · intro s hs hid
    obtain ⟨p, hp, rfl⟩ := List.mem_map.1 hs
    obtain ⟨r, hm, hr⟩ := List.mem_map.1 hid
    have h1 := h r hm
    have h2 := hbits p hp
    rw [hr] at h1
    omega

theorem freshSteps_nil (cs : List ScannedCall) (bias : Nat) (supply : IdSupply) :
    freshSteps cs bias supply []
      = (cs.zipIdx supply.next).map fun p => (p.1.shift bias).stepWith p.2 := by
  unfold freshSteps
  generalize (cs.zipIdx supply.next).map (fun p => (p.1.shift bias).stepWith p.2) = steps
  induction steps with
  | nil => rfl
  | cons s steps ih => rw [Rescan.inheritIds, List.findIdx?_nil, ih]

namespace Session

/-- The actions of the steps and the places of their calls are those that a scan of the text
finds. -/
def Agrees (s : Session) : Prop :=
  s.steps.map (fun x => (x.action, x.site)) = (scan s.text).map fun d => (d.action, some d.site)

theorem agrees_of_freshSteps {s : Session} {supply : IdSupply} {replaced : List Step}
    (h : s.steps = freshSteps (scan s.text) 0 supply replaced) : s.Agrees := by
  rw [Agrees, h, map_freshSteps _ fun _ _ => rfl]
  rfl

/-- After a change of plain text the steps agree with it if they did before. -/
theorem agrees_of_rescan {s s' : Session} {c : TextChange} {supply : IdSupply}
    {replaced : List Step} (h : s.Agrees) (hp : s.text.Plain) (hp' : (c.apply s.text).Plain)
    (hs : (c.apply s.text).size ≤ maxPlace)
    (v : Rescan.Surroundings s.text c ((scan s.text).map (·.site)))
    (htext : s'.text = c.apply s.text)
    (hsteps : s'.steps = s.steps.take v.left.length
      ++ freshSteps (scan (v.lead ++ c.text ++ v.trail)) v.fore.size supply replaced
      ++ (s.steps.drop (v.left.length + v.middle.length)).map fun x =>
        { x with site := x.site.map (Drift.moved ⟨c.stop, c.delta⟩) }) : s'.Agrees := by
  let key : Step → Action × Option CallSite := fun x => (x.action, x.site)
  let found : ScannedCall → Action × Option CallSite := fun d => (d.action, some d.site)
  have hkeys : s.steps.map key = (scan v.fore).map found
      ++ ((scan (v.lead ++ v.gone ++ v.trail)).map (ScannedCall.shift v.fore.size)).map found
      ++ ((scan v.rear).map
        (ScannedCall.shift (v.fore ++ (v.lead ++ v.gone ++ v.trail)).size)).map found := by
    rw [← List.map_append, ← List.map_append, ← v.scan_eq hp]
    exact h
  have hleft : v.left.length = (scan v.fore).length := by
    rw [v.left_eq hp, List.length_map]
  have hmiddle : v.left.length + v.middle.length
      = (scan v.fore).length + (scan (v.lead ++ v.gone ++ v.trail)).length := by
    have h1 := congrArg List.length v.sites_eq
    have h2 := congrArg List.length (v.scan_eq hp)
    have h3 := congrArg List.length (v.right_eq hp)
    simp only [List.length_append, List.length_map] at h1 h2 h3
    omega
  have hbefore : (s.steps.take v.left.length).map key = (scan v.fore).map found := by
    rw [List.map_take, hkeys, List.append_assoc, hleft]
    exact List.take_left' (List.length_map _)
  have hbehind : (s.steps.drop (v.left.length + v.middle.length)).map key
      = ((scan v.rear).map
        (ScannedCall.shift (v.fore ++ (v.lead ++ v.gone ++ v.trail)).size)).map found := by
    rw [List.map_drop, hkeys, hmiddle]
    exact List.drop_left' (by simp only [List.length_append, List.length_map])
  -- what stands behind the change has moved to where the new text has it
  have hmoved : ((s.steps.drop (v.left.length + v.middle.length)).map fun x =>
      ({ x with site := x.site.map (Drift.moved ⟨c.stop, c.delta⟩) } : Step)).map key
      = ((scan v.rear).map
        (ScannedCall.shift (v.fore ++ (v.lead ++ c.text ++ v.trail)).size)).map found := by
    have := congrArg (List.map fun p : Action × Option CallSite =>
      (p.1, p.2.map (Drift.moved ⟨c.stop, c.delta⟩))) hbehind
    rw [List.map_map, List.map_map, List.map_map] at this
    rw [List.map_map, List.map_map]
    refine this.trans (List.map_congr_left fun d hd => ?_)
    exact congrArg (fun site => (d.action, some site)) (v.moved_eq hp hs hd)
  have hfresh : (freshSteps (scan (v.lead ++ c.text ++ v.trail)) v.fore.size supply replaced).map key
      = ((scan (v.lead ++ c.text ++ v.trail)).map (ScannedCall.shift v.fore.size)).map found := by
    rw [map_freshSteps key fun _ _ => rfl, List.map_map]
    rfl
  have hscan := v.scan_around (x := c.text) (by rw [← v.apply_eq]; exact hp')
  rw [Agrees, htext, hsteps, v.apply_eq, hscan]
  show List.map key _ = List.map found _
  rw [List.map_append, List.map_append, List.map_append, List.map_append, hbefore, hfresh, hmoved]

/-- A session that agrees with its text as long as it is in step, with identities from a supply. -/
structure Current (s : Session) (supply : IdSupply) : Prop where
  kept : s.Kept
  handedOut : HandedOut supply s.steps
  agrees : s.desynced = false → s.Agrees

theorem Current.start {t : Text} {s : Session} {supply supply' : IdSupply}
    (h : (Session.start t).run supply = (.ok s, supply')) : s.Current supply' := by
  obtain ⟨-, hsteps, htext, -, -, hsupply⟩ := run_start h
  rw [← freshSteps_nil] at hsteps
  refine ⟨Kept.start h, ?_, fun _ => agrees_of_freshSteps (htext ▸ hsteps)⟩
  rw [hsteps, hsupply]
  exact handedOut_freshSteps fun _ h => absurd h List.not_mem_nil

/-- Taking a call out of the middle of an unfinished one completes that one, of which the routine
does not know. -/
theorem edit_completes_unfinished_call :
    let pose : Text := "auton::setPose(0, 0, 0);".toList
    let around : Text := "auton::wait(auton::shoot();5);".toList
    let wait : Text := "auton::wait(5);".toList
    ∃ (s s' : Session) (out : Option (HostEdit × ViewMessage)) (supply : IdSupply),
      (Session.start (pose ++ around)).run ⟨0⟩ = (.ok s, supply) ∧ s.desynced = false ∧
      s.steps.map (·.action) = (scan s.text).map (·.action) ∧
      s.edit (.remove 1 1) = .ok (s', out) ∧ s'.desynced = false ∧ s'.text = pose ++ wait ∧
      s'.steps.map (·.action) ≠ (scan s'.text).map (·.action) := by
  intro pose around wait
  have hlast : pose.getLast? = some ';' := by decide +kernel
  have hclosed : ∀ c ∈ pose.getLast?, c = ';' := fun c hc => Option.some.inj (hc.symm.trans hlast)
  have hscan : scan (pose ++ around)
      = scan pose ++ (scan around).map (ScannedCall.shift pose.size) :=
    scan_append (by decide +kernel) (.closed hclosed)
  have hscan' : (scan (pose ++ wait)).length = 2 := by
    rw [scan_append (by decide +kernel) (.closed hclosed), List.length_append, List.length_map]
    decide +kernel
  have hall : (Routine.ofSteps (((scan pose
        ++ (scan around).map (ScannedCall.shift pose.size)).zipIdx 0).map
          fun p => (p.1.shift 0).stepWith p.2)).toOption.any (fun routine =>
      ((⟨pose ++ around, routine, [], none, false⟩ : Session).edit (.remove 1 1)).toOption.any
        fun p => p.1.text == pose ++ wait && p.1.steps.length == 1 && !p.1.desynced) = true := by
    decide +kernel
  rw [← hscan] at hall
  obtain ⟨routine, hr, hall⟩ := (Option.any_eq_true _ _).1 hall
  obtain ⟨p, hedit, hall⟩ := (Option.any_eq_true _ _).1 hall
  rw [Result.toOption_eq_some_iff] at hr hedit
  simp only [Bool.and_eq_true, Bool.not_eq_true', beq_iff_eq] at hall
  obtain ⟨⟨htext, hlength⟩, hd⟩ := hall
  let s : Session := ⟨pose ++ around, routine, [], none, false⟩
  have hstart : (Session.start (pose ++ around)).run ⟨0⟩
      = (.ok s, ⟨0 + (scan (pose ++ around)).length⟩) := start_eq_ok hr
  have hagrees : s.Agrees := (Current.start hstart).agrees rfl
  replace hagrees := congrArg (List.map Prod.fst) hagrees
  rw [List.map_map, List.map_map] at hagrees
  refine ⟨s, p.1, p.2, _, hstart, rfl, hagrees, hedit, hd, htext, fun h => ?_⟩
  have := congrArg List.length h
  rw [List.length_map, List.length_map, htext, hscan', hlength] at this
  exact absurd this (by decide)

theorem Current.takeChange {s : Session} {c : TextChange} {supply : IdSupply} (h : s.Current supply)
    (hf : c.fits s.text = true) (hp : s.text.Plain) (hp' : (c.apply s.text).Plain)
    (hs : (c.apply s.text).size ≤ maxPlace) :
    ∃ s' told supply', (s.takeChange c).run supply = (.ok (s', told), supply') ∧
      s'.Current supply' ∧ s'.text = c.apply s.text := by
  cases hd : s.desynced with
  | true =>
    refine ⟨{ s with text := c.apply s.text }, [], supply, ?_, ⟨⟨h.kept.sound, ?_⟩, h.handedOut, ?_⟩,
      rfl⟩
    · exact run_takeChange_desynced hd c supply
    · exact fun hd' => by simp [hd] at hd'
    · exact fun hd' => by simp [hd] at hd'
  | false =>
    have hsites : s.steps.map (·.site) = ((scan s.text).map (·.site)).map some := by
      have := congrArg (List.map Prod.snd) (h.agrees hd)
      rw [List.map_map, List.map_map] at this
      rw [List.map_map]
      exact this
    obtain ⟨v⟩ := Rescan.nonempty_surroundings (anchored_scan s.text) hf
    obtain ⟨s', told, hrun, htext, -, hcases⟩ := run_takeChange h.kept hd hsites v supply
    refine ⟨s', told, _, hrun, ⟨(h.kept.takeChange hf hs hrun).1, ?_, ?_⟩, htext⟩
    · rcases hcases with ⟨-, -, -, hsteps⟩ | ⟨-, -, hroutine⟩
      · intro x hx
        rw [hsteps] at hx
        rcases List.mem_append.1 hx with hx | hx
        · rcases List.mem_append.1 hx with hx | hx
          · exact Nat.lt_of_lt_of_le (h.handedOut x (List.mem_of_mem_take hx))
              (Nat.le_add_right _ _)
          · refine handedOut_freshSteps (fun y hy => h.handedOut y ?_) x hx
            exact List.mem_of_mem_drop (List.mem_of_mem_take hy)
        · obtain ⟨y, hy, rfl⟩ := List.mem_map.1 hx
          exact Nat.lt_of_lt_of_le (h.handedOut y (List.mem_of_mem_drop hy)) (Nat.le_add_right _ _)
      · intro x hx
        rw [Session.steps, hroutine] at hx
        exact Nat.lt_of_lt_of_le (h.handedOut x hx) (Nat.le_add_right _ _)
    · intro hd'
      rcases hcases with ⟨-, -, -, hsteps⟩ | ⟨-, hlost, -⟩
      · exact agrees_of_rescan (h.agrees hd) hp hp' hs v htext hsteps
      · simp [hlost] at hd'

theorem Current.later {s : Session} {supply supply' : IdSupply} (h : s.Current supply)
    (hn : supply.next ≤ supply'.next) : s.Current supply' :=
  ⟨h.kept, fun x hx => Nat.lt_of_lt_of_le (h.handedOut x hx) hn, h.agrees⟩

/-- The whole text is taken over exactly when it starts with a pose. -/
theorem Current.resync {s : Session} {x : Option Session} {supply supply' : IdSupply}
    (h : s.Current supply) (hr : s.resync.run supply = (x, supply')) (hn : supply'.next ≤ identityCount) :
    (x = none ∧ s.Current supply' ∧
        ((scan s.text).head?.any fun d => d.action.kind.establishesPose) = false) ∨
      ∃ s', x = some s' ∧ s'.Current supply' ∧ s'.desynced = false := by
  obtain ⟨y, hrun, hcases⟩ := run_resync h.kept.sound supply
  obtain ⟨rfl, rfl⟩ := Prod.mk.inj (hr.symm.trans hrun)
  rcases hcases with ⟨rfl, hpose⟩ | ⟨s', rfl, -, htext, -, hd, -, hsteps⟩
  · refine .inl ⟨rfl, h.later (Nat.le_add_right _ _), ?_⟩
    rcases hpose with hpose | hrefused
    · exact hpose
    · -- the identities are new or inherited, so that only the pose can be missing
      cases hp : (scan s.text).head?.any fun d => d.action.kind.establishesPose with
      | false => rfl
      | true =>
        refine absurd (Routine.validate_eq_ok_iff.2 ⟨?_, ?_, ?_, ?_⟩) hrefused
        · exact Nat.le_of_eq (Nat.zero_add _)
        · intro _ _
          have hkinds := map_freshSteps (fun x => x.kind) (fun _ _ => rfl) (scan s.text) 0 supply
            s.steps
          obtain ⟨d, hd, hpose⟩ := Option.any_eq_true _ _ |>.1 hp
          have hhead := congrArg List.head? hkinds
          rw [List.head?_map, List.head?_map, hd] at hhead
          obtain ⟨y, hy, hkind⟩ := Option.map_eq_some_iff.1 hhead
          refine ⟨y, hy, ?_⟩
          rw [hkind]
          exact hpose
        · exact nodup_freshSteps h.handedOut (Routine.ids_nodup h.kept.sound) hn
        · intro y _ hy
          have hnone : s.routine.steps.take 0 ++ s.routine.steps.drop (0 + s.routine.size) = [] := by
            rw [List.take_zero, List.nil_append, Nat.zero_add]
            exact List.drop_length
          change y.id ∈ (s.routine.steps.take 0 ++ s.routine.steps.drop (0 + s.routine.size)).map _ at hy
          rw [hnone] at hy
          exact absurd hy List.not_mem_nil
  · have hscanned : s'.steps = freshSteps (scan s'.text) 0 supply s.steps := by
      rw [hsteps, htext]
      rfl
    refine .inr ⟨s', rfl, ⟨h.kept.resync hrun, ?_, fun _ => agrees_of_freshSteps hscanned⟩, hd⟩
    rw [hsteps]
    exact handedOut_freshSteps h.handedOut

end Session

/-- Changes that fit, each one from a plain text to a plain text. -/
inductive TextChange.StayPlain : Text → List TextChange → Prop where
  | nil {t : Text} : StayPlain t []
  | cons {t : Text} {c : TextChange} {cs : List TextChange} : c.fits t = true → t.Plain →
      (c.apply t).Plain → (c.apply t).size ≤ maxPlace → StayPlain (c.apply t) cs →
      StayPlain t (c :: cs)

namespace Session

theorem Current.takeChanges {s : Session} {cs : List TextChange} {supply : IdSupply}
    (h : s.Current supply) (hc : TextChange.StayPlain s.text cs) (messages : List ViewMessage) :
    ∃ s' told supply', (s.takeChanges cs messages).run supply = ((s', .ok told), supply') ∧
      s'.Current supply' := by
  induction cs generalizing s messages supply with
  | nil => exact ⟨s, messages, supply, rfl, h⟩
  | cons c cs ih =>
    cases hc with
    | cons hf hp hp' hs hc =>
      obtain ⟨w, told, supply₁, hrun, hw, htext⟩ := h.takeChange hf hp hp' hs
      obtain ⟨s', told', supply', hrun', hs'⟩ := ih hw (htext ▸ hc) (messages ++ told)
      exact ⟨s', told', supply', (run_takeChanges_of_taken hf hrun cs messages).trans hrun', hs'⟩

theorem Current.notice {s s' : Session} {n : HostNotice}
    {x : Except SessionError (List ViewMessage)} {supply supply' : IdSupply}
    (h : s.Current supply) (he : ∀ seq ∈ n.echo, seq ∉ s.pending)
    (hc : TextChange.StayPlain s.text n.changes)
    (hr : (s.notice n).run supply = ((s', x), supply')) (hn : supply'.next ≤ identityCount) :
    s'.Current supply' ∧
      ((∃ told, x = .ok told) ∧ s'.desynced = false ∨
        x = .error .desynced ∧ s'.desynced = true ∧
          ((scan s'.text).head?.any fun d => d.action.kind.establishesPose) = false) := by
  obtain ⟨w, told, supply₁, hrun, hw⟩ := h.takeChanges hc []
  rw [run_notice he hrun] at hr
  cases hd : w.desynced with
  | false =>
    rw [run_conclude_of_inStep hd] at hr
    cases hr
    exact ⟨hw, .inl ⟨⟨told, rfl⟩, hd⟩⟩
  | true =>
    cases hresync : w.resync.run supply₁ with
    | mk y supply₂ =>
      rw [run_conclude_of_desynced hd _ hresync] at hr
      cases y with
      | none =>
        cases hr
        rcases hw.resync hresync hn with ⟨-, hw', hpose⟩ | ⟨u, hu, -⟩
        · exact ⟨hw', .inr ⟨rfl, hd, hpose⟩⟩
        · simp at hu
      | some u =>
        cases hr
        rcases hw.resync hresync hn with ⟨hnone, -⟩ | ⟨u', hu, hcurrent, hd'⟩
        · simp at hnone
        · obtain rfl := Option.some.inj hu
          exact ⟨hcurrent, .inl ⟨⟨_, rfl⟩, hd'⟩⟩

/-- Sessions that are started and then only take notice of what the host does, in plain text. Each
identity is handed out once. -/
inductive Noticing : Session → IdSupply → Prop where
  | start {t : Text} {s : Session} {supply supply' : IdSupply} :
      (Session.start t).run supply = (.ok s, supply') → Noticing s supply'
  | notice {s s' : Session} {n : HostNotice} {x : Except SessionError (List ViewMessage)}
      {supply supply' : IdSupply} : Noticing s supply → (∀ seq ∈ n.echo, seq ∉ s.pending) →
      TextChange.StayPlain s.text n.changes → (s.notice n).run supply = ((s', x), supply') →
      supply'.next ≤ identityCount → Noticing s' supply'

theorem Noticing.current {s : Session} {supply : IdSupply} (h : Noticing s supply) :
    s.Current supply := by
  induction h with
  | start h => exact Current.start h
  | notice _ he hc hr hn ih => exact (ih.notice he hc hr hn).1

/-- After each notice the session is in step and its steps are those of a scan of its whole text, or
it has lost step and says so, and then its text does not start with a pose. -/
theorem agrees_or_desynced_of_notice {s s' : Session} {n : HostNotice}
    {x : Except SessionError (List ViewMessage)} {supply supply' : IdSupply}
    (h : Noticing s supply) (he : ∀ seq ∈ n.echo, seq ∉ s.pending)
    (hc : TextChange.StayPlain s.text n.changes)
    (hr : (s.notice n).run supply = ((s', x), supply')) (hn : supply'.next ≤ identityCount) :
    ((∃ told, x = .ok told) ∧ s'.desynced = false ∧
        s'.steps.map (fun y => (y.action, y.site))
          = (scan s'.text).map fun d => (d.action, some d.site)) ∨
      (x = .error .desynced ∧ s'.desynced = true ∧
        ((scan s'.text).head?.any fun d => d.action.kind.establishesPose) = false) := by
  obtain ⟨hcurrent, ⟨htold, hd⟩ | hlost⟩ := h.current.notice he hc hr hn
  · exact .inl ⟨htold, hd, hcurrent.agrees hd⟩
  · exact .inr hlost

/-- The pose is lost and comes back, and then a second call is written behind it. -/
theorem agrees_of_notice_resumed :
    let retype : HostNotice := ⟨none, [⟨0, 5, []⟩, ⟨0, 0, "auton".toList⟩]⟩
    let extend : HostNotice := ⟨none, [⟨25, 0, "auton::shoot();".toList⟩]⟩
    ∃ s₀ s₁ s₂ supply₀ supply₁ supply₂ x₁ x₂,
      (Session.start "auton::setPose(0, 0, 0); ".toList).run ⟨0⟩ = (.ok s₀, supply₀) ∧
      (s₀.notice retype).run supply₀ = ((s₁, x₁), supply₁) ∧
      (s₁.notice extend).run supply₁ = ((s₂, x₂), supply₂) ∧
      s₂.text = "auton::setPose(0, 0, 0); auton::shoot();".toList ∧ s₂.steps.length = 2 ∧
      s₂.steps.map (fun y => (y.action, y.site))
        = (scan s₂.text).map fun d => (d.action, some d.site) := by
  intro retype extend
  have hall : (match (Session.start "auton::setPose(0, 0, 0); ".toList).run ⟨0⟩ with
      | (.ok s₀, supply₀) =>
        let r₁ := (s₀.notice retype).run supply₀
        let r₂ := (r₁.1.1.notice extend).run r₁.2
        s₀.text == "auton::setPose(0, 0, 0); ".toList && r₁.1.1.text == s₀.text
          && r₁.2.next ≤ identityCount && r₂.2.next ≤ identityCount
          && r₂.1.1.text == "auton::setPose(0, 0, 0); auton::shoot();".toList
          && r₂.1.1.steps.length == 2 && !r₂.1.1.desynced
      | _ => false) = true := by
    decide +kernel
  cases hstart : (Session.start "auton::setPose(0, 0, 0); ".toList).run ⟨0⟩ with
  | mk x supply₀ =>
    rw [hstart] at hall
    cases x with
    | error e => simp at hall
    | ok s₀ =>
      cases hr₁ : (s₀.notice retype).run supply₀ with
      | mk p₁ supply₁ =>
        cases hr₂ : (p₁.1.notice extend).run supply₁ with
        | mk p₂ supply₂ =>
          simp only [hr₁, hr₂, Bool.and_eq_true, beq_iff_eq, decide_eq_true_eq,
            Bool.not_eq_true'] at hall
          obtain ⟨⟨⟨⟨⟨⟨ht₀, ht₁⟩, hn₁⟩, hn₂⟩, ht₂⟩, hlength⟩, hd₂⟩ := hall
          have hc₁ : TextChange.StayPlain s₀.text retype.changes := by
            rw [ht₀]
            exact .cons (by decide +kernel) (by decide +kernel) (by decide +kernel)
              (by decide +kernel) (.cons (by decide +kernel) (by decide +kernel)
                (by decide +kernel) (by decide +kernel) .nil)
          have hc₂ : TextChange.StayPlain p₁.1.text extend.changes := by
            rw [ht₁, ht₀]
            exact .cons (by decide +kernel) (by decide +kernel) (by decide +kernel)
              (by decide +kernel) .nil
          have h₁ := Noticing.notice (.start hstart) (fun _ h => absurd h (Option.not_mem_none _)) hc₁ hr₁ hn₁
          refine ⟨s₀, p₁.1, p₂.1, supply₀, supply₁, supply₂, p₁.2, p₂.2, rfl, hr₁, hr₂, ht₂,
            hlength, ?_⟩
          rcases agrees_or_desynced_of_notice h₁ (fun _ h => absurd h (Option.not_mem_none _)) hc₂ hr₂ hn₂ with
            ⟨-, -, hagrees⟩ | ⟨-, hlost, -⟩
          · exact hagrees
          · rw [hd₂] at hlost
            exact absurd hlost Bool.false_ne_true

end Session

end RoutineSync
