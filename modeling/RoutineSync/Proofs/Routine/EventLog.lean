import RoutineSync.Proofs.Routine.Events
/-!
The events that a subscriber is told are a log of the routine: they are those of the edits made while
it is subscribed, in their order, and made again on the list as it was at the subscription they lead
to the list as it is.
-/
set_option autoImplicit false

namespace RoutineSync

/-- Makes what an event tells of again; none where the list does not have what was taken out. -/
def RoutineEvent.replay? (entries : List (ActionId × Action)) (event : RoutineEvent) :
    Option (List (ActionId × Action)) :=
  let splice : Splice (ActionId × Action) :=
    ⟨event.index, event.removed.length, event.inserted.map Step.entry⟩
  if event.index + event.removed.length ≤ entries.length ∧
      splice.removed entries = event.removed.map Step.entry then
    some (splice.run entries)
  else none

namespace Routine

def event? : Except RoutineError (Option RoutineEvent × Routine) → Option RoutineEvent
  | .ok (x, _) => x
  | .error _ => none

def eventOf? (r : Routine) : Request → Option RoutineEvent
  | .replace e origin => event? (r.edit e origin)
  | .insert index steps origin => event? (r.edit (.insert index steps) origin)
  | .remove index count origin => event? (r.edit (.remove index count) origin)
  | .append steps origin => event? (r.append steps origin)
  | .undo => event? r.undo
  | .redo => event? r.redo
  | .setStartPose _ | .drift _ _ | .mapSites _ | .setSite _ _ => none

/-- A request, or a subscriber who comes or goes. -/
inductive Call where
  | ask (q : Request)
  | subscribe
  | unsubscribe (subscriber : Nat)

namespace Call

def movesPose : Call → Bool
  | .ask (.setStartPose _) => true
  | _ => false

def ends (subscriber : Nat) : Call → Bool
  | .unsubscribe s => s == subscriber
  | _ => false

end Call

def perform (r : Routine) : Call → Routine
  | .ask q => r.respond q
  | .subscribe => r.subscribe.2
  | .unsubscribe subscriber => (r.unsubscribe subscriber).2

def given? (r : Routine) : Call → Option RoutineEvent
  | .ask q => r.eventOf? q
  | .subscribe | .unsubscribe _ => none

def received (r : Routine) (subscriber : Nat) : List RoutineEvent :=
  (r.outbox.filter fun d => d.subscriber == subscriber).map (·.event)

def eventsUntil (subscriber : Nat) : Routine → List Call → List RoutineEvent
  | _, [] => []
  | r, c :: cs =>
    if c.ends subscriber then []
    else (r.given? c).toList ++ eventsUntil subscriber (r.perform c) cs

/-- What comes of an operation that gives an event or none: an event is numbered and told, and tells
what was taken out and what stands there now. -/
inductive Announces (r : Routine) : Option RoutineEvent → Routine → Prop where
  | silent : Announces r none r
  | told {splice : Splice Step} {journal : Journal Step} {origin : Origin} {event : RoutineEvent}
      {t : Routine} : splice.Fits r.steps → journal.items = splice.run r.steps →
      { r with journal }.announce origin splice.index (splice.removed r.steps) splice.inserted
        = (event, t) →
      Announces r (some event) t

theorem announces_of_edit {r t : Routine} {e : RoutineEdit} {origin : Origin}
    {x : Option RoutineEvent} (h : r.edit e origin = .ok (x, t)) : r.Announces x t := by
  obtain ⟨hvalid, ⟨-, rfl, rfl⟩ | ⟨-, c, journal, event, hexecute, hannounce, rfl⟩⟩ := edit_eq_ok h
  · exact .silent
  · have hitems := items_of_execute hexecute
    rw [forward_commandOf] at hitems
    have hfits : Splice.Fits ⟨e.index, e.count, e.steps⟩ r.steps := (validate_eq_ok_iff.1 hvalid).1
    exact .told hfits hitems hannounce

theorem announces_announceSplice {r : Routine} {journal : Journal Step} {splice : Splice Step}
    (hfits : splice.Fits r.steps) (hitems : journal.items = splice.run r.steps) :
    r.Announces (some (r.announceSplice journal splice).1) (r.announceSplice journal splice).2 := by
  have hinserted : (journal.items.drop splice.index).take splice.inserted.length
      = splice.inserted := by
    rw [hitems]
    exact (Splice.run_reverse hfits).2.2
  have hannounce : { r with journal }.announce .history splice.index (splice.removed r.steps)
      splice.inserted = r.announceSplice journal splice := by
    rw [announceSplice, hinserted]
  exact .told hfits hitems hannounce

theorem announces_of_retrace {r t : Routine} {d : Direction} {x : Option RoutineEvent}
    (h : r.retrace d = .ok (x, t)) : r.Announces x t := by
  obtain ⟨rfl, rfl⟩ | ⟨splice, journal, hj, rfl, rfl⟩ := retrace_eq_ok h
  · exact .silent
  · obtain ⟨hfits, hitems⟩ := Journal.eq_run_of_walk hj
    exact announces_announceSplice hfits hitems

theorem announces_orSame {r : Routine} {x : Except RoutineError (Option RoutineEvent × Routine)}
    (h : ∀ y t, x = .ok (y, t) → r.Announces y t) : r.Announces (event? x) (r.orSame x) := by
  cases x with
  | error e => exact .silent
  | ok p => exact h p.1 p.2 rfl

/-- What an event tells of was made in the list, so it can be made again in the same list. -/
theorem Announces.replay {r t : Routine} {x : Option RoutineEvent} (h : r.Announces x t) :
    x.toList.foldlM RoutineEvent.replay? r.entries = some t.entries := by
  cases h with
  | silent => rfl
  | @told splice journal origin event t hfits hitems ha =>
    obtain ⟨rfl, rfl⟩ := Prod.mk.inj ha
    have hlength : (splice.removed r.steps).length = splice.count := length_drop_take hfits
    have hremoved : (splice.map Step.entry).removed r.entries
        = (splice.removed r.steps).map Step.entry := Splice.map_removed Step.entry splice r.steps
    have hrun : (splice.map Step.entry).run r.entries = journal.items.map Step.entry := by
      rw [hitems]
      exact Splice.map_run Step.entry splice r.steps
    have hreplay : RoutineEvent.replay? r.entries ⟨r.seq + 1, origin, splice.index,
        splice.removed r.steps, splice.inserted⟩ = some (journal.items.map Step.entry) := by
      unfold RoutineEvent.replay?
      dsimp only
      rw [hlength]
      have hle : splice.index + splice.count ≤ r.entries.length := by
        rw [entries, List.length_map]
        exact hfits
      exact (if_pos ⟨hle, hremoved⟩).trans (congrArg some hrun)
    show (RoutineEvent.replay? r.entries _ >>= fun y => pure y) = _
    rw [bind_pure]
    exact hreplay

/-- How an event that is given, if there is one, reaches the subscribers. -/
structure Delivers (r : Routine) (x : Option RoutineEvent) (t : Routine) : Prop where
  outbox_eq : t.outbox = r.outbox ++ x.toList.flatMap fun event => r.subscribers.map (⟨·, event⟩)
  subscribers_eq : t.subscribers = r.subscribers
  next_eq : t.nextSubscriber = r.nextSubscriber
  seq_eq : t.seq = r.seq + x.toList.length
  numbered : ∀ event ∈ x.toList, event.seq = r.seq + 1

theorem Announces.delivers {r t : Routine} {x : Option RoutineEvent} (h : r.Announces x t) :
    r.Delivers x t := by
  cases h with
  | silent => exact ⟨(List.append_nil _).symm, rfl, rfl, rfl, by simp⟩
  | told hfits hitems ha =>
    obtain ⟨rfl, rfl⟩ := Prod.mk.inj ha
    refine ⟨?_, rfl, rfl, rfl, by simp⟩
    simp [emit]

theorem delivers_none {r t : Routine} (ho : t.outbox = r.outbox)
    (hs : t.subscribers = r.subscribers) (hn : t.nextSubscriber = r.nextSubscriber)
    (hq : t.seq = r.seq) : r.Delivers none t :=
  ⟨by simp [ho], hs, hn, hq, by simp⟩

/-- A request gives an event and tells it, or writes in place. -/
theorem announces_or_writes (r : Routine) (q : Request) :
    r.Announces (r.eventOf? q) (r.respond q) ∨
      (r.eventOf? q = none ∧ r.Delivers none (r.respond q) ∧
        ((Call.ask q).movesPose = false → (r.respond q).entries = r.entries)) := by
  cases q with
  | replace e origin => exact .inl (announces_orSame fun _ _ => announces_of_edit)
  | insert index steps origin => exact .inl (announces_orSame fun _ _ => announces_of_edit)
  | remove index count origin => exact .inl (announces_orSame fun _ _ => announces_of_edit)
  | append steps origin => exact .inl (announces_orSame fun _ _ => announces_of_edit)
  | undo => exact .inl (announces_orSame fun _ _ => announces_of_retrace)
  | redo => exact .inl (announces_orSame fun _ _ => announces_of_retrace)
  | setStartPose pose =>
    refine .inr ⟨rfl, ?_, nofun⟩
    rw [respond]
    cases hp : r.setStartPose pose with
    | error e => exact delivers_none rfl rfl rfl rfl
    | ok p =>
      obtain ⟨previous, t⟩ := p
      obtain ⟨first, rest, radians, -, -, rfl⟩ := setStartPose_eq_ok_iff.1 hp
      exact delivers_none rfl rfl rfl rfl
  | drift fromIndex d =>
    exact .inr ⟨rfl, delivers_none rfl rfl rfl rfl, fun _ => r.entries_drift fromIndex d⟩
  | mapSites f =>
    exact .inr ⟨rfl, delivers_none rfl rfl rfl rfl, fun _ => r.entries_mapSites 0 f⟩
  | setSite id site =>
    refine .inr ⟨rfl, ?_⟩
    rw [respond]
    cases hs : r.setSite? id site with
    | none => exact ⟨delivers_none rfl rfl rfl rfl, fun _ => rfl⟩
    | some t =>
      obtain ⟨index, -, rfl⟩ := Option.map_eq_some_iff.1 hs
      exact ⟨delivers_none rfl rfl rfl rfl, fun _ => entries_setSite? hs⟩

theorem delivers_respond (r : Routine) (q : Request) : r.Delivers (r.eventOf? q) (r.respond q) := by
  obtain h | ⟨hnone, h, -⟩ := announces_or_writes r q
  · exact h.delivers
  · rwa [hnone]

theorem replay_perform (r : Routine) {c : Call} (hc : c.movesPose = false) :
    (r.given? c).toList.foldlM RoutineEvent.replay? r.entries = some (r.perform c).entries := by
  cases c with
  | subscribe => rfl
  | unsubscribe subscriber => rfl
  | ask q =>
    obtain h | ⟨hnone, -, h⟩ := announces_or_writes r q
    · exact h.replay
    · show (r.eventOf? q).toList.foldlM _ _ = some (r.respond q).entries
      rw [hnone, h hc]
      rfl

/-- Made again, the events of calls lead to the list that the calls lead to. -/
theorem replay_eventsUntil {subscriber : Nat} {cs : List Call} (r : Routine)
    (hp : ∀ c ∈ cs, c.movesPose = false) (he : ∀ c ∈ cs, c.ends subscriber = false) :
    (eventsUntil subscriber r cs).foldlM RoutineEvent.replay? r.entries
      = some (cs.foldl perform r).entries := by
  induction cs generalizing r with
  | nil => rfl
  | cons c cs ih =>
    rw [List.forall_mem_cons] at hp he
    rw [eventsUntil, he.1, if_neg Bool.false_ne_true, List.foldlM_append, replay_perform r hp.1]
    exact ih (r.perform c) hp.2 he.2

theorem seq_perform (r : Routine) (c : Call) :
    (r.perform c).seq = r.seq + (r.given? c).toList.length ∧
      ∀ event ∈ (r.given? c).toList, event.seq = r.seq + 1 := by
  cases c with
  | ask q => exact ⟨(r.delivers_respond q).seq_eq, (r.delivers_respond q).numbered⟩
  | subscribe => exact ⟨rfl, by simp [given?]⟩
  | unsubscribe subscriber => exact ⟨rfl, by simp [given?]⟩

theorem pairwise_eventsUntil (subscriber : Nat) (r : Routine) (cs : List Call) :
    (∀ event ∈ eventsUntil subscriber r cs, r.seq < event.seq) ∧
      (eventsUntil subscriber r cs).Pairwise fun a b => a.seq < b.seq := by
  induction cs generalizing r with
  | nil => exact ⟨by simp [eventsUntil], .nil⟩
  | cons c cs ih =>
    obtain ⟨hlater, hpair⟩ := ih (r.perform c)
    obtain ⟨hseq, hnumbered⟩ := r.seq_perform c
    rw [eventsUntil]
    split
    · exact ⟨by simp, .nil⟩
    · cases hx : r.given? c with
      | none =>
        rw [hx] at hseq
        refine ⟨fun event hevent => ?_, hpair⟩
        have := hlater event hevent
        rwa [hseq] at this
      | some event =>
        rw [hx] at hseq hnumbered
        have hfirst : event.seq = r.seq + 1 := hnumbered event (List.mem_singleton_self _)
        have hnext : (r.perform c).seq = r.seq + 1 := hseq
        refine ⟨List.forall_mem_cons.2 ⟨by omega, fun later hl => ?_⟩, .cons (fun later hl => ?_) hpair⟩
        · have := hlater later hl
          omega
        · have := hlater later hl
          omega

/-- Those who are subscribed have numbers of their own, given out already. -/
structure Enrolled (r : Routine) : Prop where
  distinct : r.subscribers.Nodup
  known : ∀ s ∈ r.subscribers, s < r.nextSubscriber
  told : ∀ d ∈ r.outbox, d.subscriber < r.nextSubscriber

theorem Enrolled.ofFresh {r : Routine} (h : r.Fresh) : r.Enrolled := by
  cases h with
  | starting pose supply => exact ⟨.nil, nofun, nofun⟩
  | ofSteps h =>
    obtain ⟨-, h⟩ := Result.check_eq_ok_iff.1 h
    obtain ⟨-, h⟩ := Result.check_eq_ok_iff.1 h
    rw [Result.pure_eq_ok_iff] at h
    subst h
    exact ⟨.nil, nofun, nofun⟩

theorem Enrolled.perform {r : Routine} (h : r.Enrolled) (c : Call) : (r.perform c).Enrolled := by
  obtain ⟨hdistinct, hknown, htold⟩ := h
  cases c with
  | ask q =>
    have hd := r.delivers_respond q
    constructor
    · show (r.respond q).subscribers.Nodup
      rwa [hd.subscribers_eq]
    · show ∀ s ∈ (r.respond q).subscribers, s < (r.respond q).nextSubscriber
      rwa [hd.subscribers_eq, hd.next_eq]
    · show ∀ d ∈ (r.respond q).outbox, d.subscriber < (r.respond q).nextSubscriber
      rw [hd.outbox_eq, hd.next_eq]
      intro d hm
      rcases List.mem_append.1 hm with hm | hm
      · exact htold d hm
      · obtain ⟨event, -, hm⟩ := List.mem_flatMap.1 hm
        obtain ⟨s, hs, rfl⟩ := List.mem_map.1 hm
        exact hknown s hs
  | subscribe =>
    refine ⟨?_, fun s hs => ?_, fun d hd => Nat.lt_succ_of_lt (htold d hd)⟩
    · refine List.nodup_append.2 ⟨hdistinct, List.pairwise_singleton _ _, fun a ha b hb => ?_⟩
      have := hknown a ha
      rw [List.mem_singleton.1 hb]
      omega
    · rcases List.mem_append.1 hs with hs | hs
      · exact Nat.lt_succ_of_lt (hknown s hs)
      · rw [List.mem_singleton.1 hs]
        exact Nat.lt_succ_self _
  | unsubscribe subscriber =>
    exact ⟨hdistinct.filter _, fun s hs => hknown s (List.mem_filter.1 hs).1, htold⟩

theorem Enrolled.foldl {r : Routine} (h : r.Enrolled) (cs : List Call) :
    (cs.foldl Routine.perform r).Enrolled := by
  induction cs generalizing r with
  | nil => exact h
  | cons c cs ih => exact ih (h.perform c)

theorem Enrolled.received_respond {r : Routine} (h : r.Enrolled) (q : Request) (s : Nat) :
    (r.respond q).received s
      = r.received s ++ if s ∈ r.subscribers then (r.eventOf? q).toList else [] := by
  have hone : ∀ event : RoutineEvent,
      ((r.subscribers.map fun s => (⟨s, event⟩ : Delivery)).filter fun d => d.subscriber == s)
        = List.replicate (if s ∈ r.subscribers then 1 else 0) ⟨s, event⟩ := by
    intro event
    rw [List.filter_map, Function.comp_def, List.filter_beq, List.map_replicate, h.distinct.count]
  rw [received, (r.delivers_respond q).outbox_eq, List.filter_append, List.map_append]
  congr 1
  cases r.eventOf? q with
  | none => simp
  | some event =>
    rw [Option.toList_some, List.flatMap_singleton, hone]
    split <;> rfl

/-- Who is subscribed is told the events up to going, and who is not is told nothing. -/
theorem Enrolled.received_foldl {r : Routine} (h : r.Enrolled) (cs : List Call) {s : Nat}
    (hs : s < r.nextSubscriber) :
    (cs.foldl Routine.perform r).received s
      = r.received s ++ if s ∈ r.subscribers then eventsUntil s r cs else [] := by
  induction cs generalizing r with
  | nil => simp [eventsUntil]
  | cons c cs ih =>
    have ih := ih (h.perform c)
    rw [List.foldl_cons, eventsUntil]
    cases c with
    | ask q =>
      have hd := r.delivers_respond q
      have hsub : (r.perform (.ask q)).subscribers = r.subscribers := hd.subscribers_eq
      rw [ih (by rwa [show (r.perform (.ask q)).nextSubscriber = _ from hd.next_eq]), hsub,
        show (r.perform (.ask q)).received s = _ from h.received_respond q s, List.append_assoc]
      congr 1
      split <;> rfl
    | subscribe =>
      have hmem : s ∈ (r.perform .subscribe).subscribers ↔ s ∈ r.subscribers := by
        refine (List.mem_append).trans (or_iff_left fun heq => ?_)
        rw [List.mem_singleton.1 heq] at hs
        exact absurd hs (Nat.lt_irrefl _)
      rw [ih (Nat.lt_succ_of_lt hs)]
      simp only [hmem]
      rfl
    | unsubscribe subscriber =>
      have hmem : s ∈ (r.perform (.unsubscribe subscriber)).subscribers
          ↔ s ∈ r.subscribers ∧ s ≠ subscriber := by
        refine (List.mem_filter).trans (and_congr_right fun _ => ?_)
        exact bne_iff_ne
      rw [ih hs]
      show r.received s ++ _ = _
      by_cases heq : s = subscriber
      · subst heq
        have hends : (Call.unsubscribe s).ends s = true := beq_self_eq_true s
        rw [if_neg fun h => (hmem.1 h).2 rfl, if_pos hends, ite_self]
      · have hends : (Call.unsubscribe subscriber).ends s = false := beq_false_of_ne (Ne.symm heq)
        simp only [hmem, heq, hends, ne_eq, not_false_iff, and_true, Bool.false_eq_true, if_false]
        rfl

/-- A subscriber is told the events of the calls from its coming to its going, each once and in the
order of their numbers; made again on the list that it found they lead, at every moment, to the
list as it is. -/
theorem log_of_subscription {r : Routine} (h : r.Fresh) (before after : List Call)
    (hp : ∀ c ∈ after, c.movesPose = false) :
    let subscriber := (before.foldl perform r).subscribe.1
    let s := (before.foldl perform r).subscribe.2
    let t := after.foldl perform s
    t.received subscriber = eventsUntil subscriber s after ∧
      (t.received subscriber).Pairwise (fun a b => a.seq < b.seq) ∧
      ((∀ c ∈ after, c.ends subscriber = false) →
        (t.received subscriber).foldlM RoutineEvent.replay? s.entries = some t.entries) := by
  intro subscriber s t
  have hbefore : (before.foldl perform r).Enrolled := Enrolled.foldl (.ofFresh h) before
  have hs : s.Enrolled := hbefore.perform .subscribe
  have hnew : s.received subscriber = [] := by
    refine List.map_eq_nil_iff.2 (List.filter_eq_nil_iff.2 fun d hd heq => ?_)
    have := hbefore.told d hd
    rw [beq_iff_eq.1 heq] at this
    exact absurd this (Nat.lt_irrefl _)
  have hmem : subscriber ∈ s.subscribers := List.mem_append_right _ (List.mem_singleton_self _)
  have hreceived : t.received subscriber = eventsUntil subscriber s after := by
    have hlt : subscriber < s.nextSubscriber := Nat.lt_succ_self _
    rw [hs.received_foldl after hlt, hnew, if_pos hmem, List.nil_append]
  refine ⟨hreceived, ?_, fun he => ?_⟩
  · rw [hreceived]
    exact (pairwise_eventsUntil subscriber s after).2
  · rw [hreceived]
    exact replay_eventsUntil s hp he

/-- A subscriber comes when one is gone already; what it is told of are an edit that is undone and
made again, not the one that is refused nor the writes in place. -/
theorem log_of_subscription_mixed :
    let r := ((starting ⟨.zero, .zero, .zero⟩).run ⟨0⟩).1
    let before : List Call := [.subscribe, .ask (.append [⟨⟨7⟩, .wait 5, none⟩] .view),
      .unsubscribe 0]
    let after : List Call := [.ask (.replace ⟨1, 1, [⟨⟨8⟩, .wait 6, none⟩]⟩ .view),
      .ask (.remove 0 1 .text), .unsubscribe 0, .ask .undo, .subscribe, .ask (.setSite ⟨8⟩ none),
      .ask .redo, .ask (.remove 1 0 .view), .unsubscribe 2]
    let s := (before.foldl perform r).subscribe.2
    let t := after.foldl perform s
    r.Fresh ∧ (∀ c ∈ after, c.movesPose = false) ∧ (∀ c ∈ after, c.ends 1 = false) ∧
      (t.received 1).map (·.seq) = [2, 3, 4] ∧ t.received 1 = eventsUntil 1 s after ∧
      (t.received 1).foldlM RoutineEvent.replay? s.entries = some t.entries := by
  intro r before after s t
  have hr : r.Fresh := .starting ⟨.zero, .zero, .zero⟩ ⟨0⟩
  have hp : ∀ c ∈ after, c.movesPose = false := by decide
  have he : ∀ c ∈ after, c.ends 1 = false := by decide
  obtain ⟨hreceived, -, hreplay⟩ := log_of_subscription hr before after hp
  exact ⟨hr, hp, he, by decide, hreceived, hreplay he⟩

end Routine

end RoutineSync
