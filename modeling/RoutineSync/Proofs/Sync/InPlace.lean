import RoutineSync.Proofs.Call.Unblocked
/-!
Calls that are patched in place. Only the literals of parameters whose values differ are rewritten,
and what a scan finds of the patched call, by itself, is the new action. A block comment that is read
past its first closing mark is what can come in between.
-/
set_option autoImplicit false

namespace RoutineSync

namespace CallSite

/-- The value that a parameter is rewritten with, where it differs. -/
def rewritten? (before after : NameMap Value) (name : String) : Option Value := do
  let v ← before.get? name
  let w ← after.get? name
  if v.eqv w then none else some w

def Rewrites (s : CallSite) (before after : NameMap Value) (name : String) (e : TextEdit) : Prop :=
  ∃ w r, rewritten? before after name = some w ∧ s.params.get? name = some r ∧ e = ⟨r, w.source⟩

section
variable {s : CallSite} {before after : NameMap Value}

theorem rewritten?_eq_some_iff {name : String} {w : Value} :
    rewritten? before after name = some w ↔
      ∃ v, before.get? name = some v ∧ after.get? name = some w ∧ v.eqv w = false := by
  simp only [rewritten?, Option.bind_eq_bind, Option.bind_eq_some_iff]
  constructor
  · rintro ⟨v, hv, w', hw, h⟩
    split at h
    · simp at h
    · rename_i hne
      obtain rfl := Option.some.inj h
      exact ⟨v, hv, hw, by simpa using hne⟩
  · rintro ⟨v, hv, hw, hne⟩
    exact ⟨v, hv, w, hw, by simp [hne]⟩

theorem mem_addPatch {r : ByteRange} {w : Value} {ps : List TextEdit}
    (h : ∀ p ∈ ps, p.range = r → p = ⟨r, w.source⟩) {e : TextEdit} :
    e ∈ addPatch r w ps ↔ e ∈ ps ∨ e = ⟨r, w.source⟩ := by
  unfold addPatch
  split
  · rename_i hany
    obtain ⟨p, hp, hrange⟩ := List.any_eq_true.1 hany
    refine ⟨.inl, fun he => he.elim id fun he => ?_⟩
    rw [he, ← h p hp (eq_of_beq hrange)]
    exact hp
  · rw [List.mem_append, List.mem_singleton]

theorem rewrites_iff {name : String} {w : Value} {r : ByteRange} {e : TextEdit}
    (hw : rewritten? before after name = some w) (hr : s.params.get? name = some r) :
    s.Rewrites before after name e ↔ e = ⟨r, w.source⟩ := by
  constructor
  · rintro ⟨w', r', hw', hr', rfl⟩
    rw [Option.some.inj (hw.symm.trans hw'), Option.some.inj (hr.symm.trans hr')]
  · rintro rfl
    exact ⟨w, r, hw, hr, rfl⟩

theorem not_rewrites_of_eqv {name : String} {v w : Value} {e : TextEdit}
    (hv : before.get? name = some v) (hw : after.get? name = some w) (h : v.eqv w = true) :
    ¬s.Rewrites before after name e := by
  rintro ⟨w', r, hw', -⟩
  obtain ⟨v', hv', hw'', hne⟩ := rewritten?_eq_some_iff.1 hw'
  obtain rfl := Option.some.inj (hv.symm.trans hv')
  obtain rfl := Option.some.inj (hw.symm.trans hw'')
  exact Bool.false_ne_true (hne.symm.trans h)

/-- Where no two parameters have one range, all that differ are rewritten. -/
theorem mem_patchesFor
    (hinj : ∀ name name' r, s.params.get? name = some r → s.params.get? name' = some r → name = name')
    {names : List String} {ps qs : List TextEdit} (h : s.patchesFor before after names ps = some qs)
    (hps : ∀ p ∈ ps, ∃ name, s.Rewrites before after name p) :
    (∀ name ∈ names, before.contains name = true ∧ after.contains name = true) ∧
      ∀ e, e ∈ qs ↔ e ∈ ps ∨ ∃ name ∈ names, s.Rewrites before after name e := by
  induction names generalizing ps with
  | nil =>
    obtain rfl := Option.some.inj h
    simp
  | cons name names ih =>
    rw [patchesFor] at h
    split at h
    · rename_i v w hv hw
      have hhere : before.contains name = true ∧ after.contains name = true := by
        simp [NameMap.contains, hv, hw]
      split at h
      · rename_i heqv
        obtain ⟨hnames, hmem⟩ := ih h hps
        refine ⟨List.forall_mem_cons.2 ⟨hhere, hnames⟩, fun e => (hmem e).trans ?_⟩
        have hnone : ¬s.Rewrites before after name e := not_rewrites_of_eqv hv hw heqv
        simp [hnone]
      · rename_i hne
        simp only [Option.bind_eq_bind, Option.bind_eq_some_iff] at h
        obtain ⟨r, hr, h⟩ := h
        have hrewritten : rewritten? before after name = some w :=
          rewritten?_eq_some_iff.2 ⟨v, hv, hw, by simpa using hne⟩
        have hadd : ∀ e, e ∈ addPatch r w ps ↔ e ∈ ps ∨ e = ⟨r, w.source⟩ := fun e => by
          refine mem_addPatch fun p hp hrange => ?_
          obtain ⟨name', w', r', hw', hr', rfl⟩ := hps p hp
          obtain rfl : r' = r := hrange
          obtain rfl := hinj _ _ _ hr hr'
          rw [Option.some.inj (hrewritten.symm.trans hw')]
        obtain ⟨hnames, hmem⟩ := ih h fun p hp => by
          rcases (hadd p).1 hp with hp | rfl
          · exact hps p hp
          · exact ⟨name, w, r, hrewritten, hr, rfl⟩
        refine ⟨List.forall_mem_cons.2 ⟨hhere, hnames⟩, fun e => (hmem e).trans ?_⟩
        rw [hadd, List.exists_mem_cons_iff, rewrites_iff hrewritten hr, or_assoc]
    · simp at h

theorem name_inj_of_ranged (hs : CallText.Ranged ⟨s.text, s.params⟩) {name name' : String}
    {r : ByteRange} (h : s.params.get? name = some r) (h' : s.params.get? name' = some r) :
    name = name' := by
  have hmem := NameMap.mem_of_get? h
  obtain ⟨x, y, z, -, hr, hy⟩ := hs.inside _ hmem
  have hsize := Text.size_pos_of_ne_nil hy
  have hlt : r.start < r.stop := by
    rw [show r = _ from hr]
    exact Nat.lt_add_of_pos_right hsize
  rcases eq_or_of_pairwise hs.apart hmem (NameMap.mem_of_get? h') with heq | h | h
  · exact (Prod.mk.inj heq).1
  · rcases h with h | h <;> exact absurd h (Nat.not_le.2 hlt)
  · rcases h with h | h <;> exact absurd h (Nat.not_le.2 hlt)

theorem mem_patches? (hs : CallText.Ranged ⟨s.text, s.params⟩) {a b : Action} {ps : List TextEdit}
    (h : s.patches? a b = some ps) :
    a.params.names = b.params.names ∧ ∀ e, e ∈ ps ↔ ∃ name, s.Rewrites a.params b.params name e := by
  obtain ⟨qs, hqs, rfl⟩ := Option.map_eq_some_iff.1 h
  obtain ⟨hnames, hmem⟩ := mem_patchesFor (fun _ _ _ => name_inj_of_ranged hs) hqs (by simp)
  constructor
  · refine a.sorted_params.names_eq b.sorted_params fun name => ?_
    rw [← NameMap.contains_eq_true_iff, ← NameMap.contains_eq_true_iff]
    refine ⟨fun hname => (hnames name ?_).2, fun hname => (hnames name ?_).1⟩
    · exact List.mem_append_left _ (NameMap.contains_eq_true_iff.1 hname)
    · exact List.mem_append_right _ (NameMap.contains_eq_true_iff.1 hname)
  · intro e
    rw [List.mem_mergeSort, hmem]
    constructor
    · rintro (h | ⟨name, -, h⟩)
      · exact absurd h List.not_mem_nil
      · exact ⟨name, h⟩
    · rintro ⟨name, w, r, hw, h⟩
      obtain ⟨v, hv, -⟩ := rewritten?_eq_some_iff.1 hw
      have hname : name ∈ a.params.names := NameMap.contains_eq_true_iff.1 (by simp [NameMap.contains, hv])
      exact .inr ⟨name, List.mem_append_left _ hname, w, r, hw, h⟩

end

end CallSite

theorem Action.eqv_of_get? {a b : Action} (hkind : a.kind = b.kind) (hnames : a.params.names = b.params.names)
    (h : ∀ name v w, a.params.get? name = some v → b.params.get? name = some w → v.eqv w = true) :
    a.eqv b = true := by
  simp only [eqv, hkind, hnames, beq_self_eq_true, Bool.true_and, List.all_eq_true, Prod.forall]
  intro name v name' w hmem
  have hname : name = name' := by
    have hzip : (a.params.zip b.params).map (fun e => e.1.1) = (a.params.zip b.params).map fun e => e.2.1 := by
      have hlength := congrArg List.length hnames
      simp only [NameMap.names, List.length_map] at hlength
      calc (a.params.zip b.params).map (fun e => e.1.1)
          = ((a.params.zip b.params).map Prod.fst).map Prod.fst := (List.map_map ..).symm
        _ = ((a.params.zip b.params).map Prod.snd).map Prod.fst := by
            rw [List.map_fst_zip hlength.le, List.map_snd_zip hlength.ge]
            exact hnames
        _ = (a.params.zip b.params).map fun e => e.2.1 := List.map_map ..
    exact List.map_inj_left.1 hzip _ hmem
  subst hname
  obtain ⟨hv, hw⟩ := List.of_mem_zip hmem
  exact h name v w (a.sorted_params.get?_eq_some_iff.2 hv) (b.sorted_params.get?_eq_some_iff.2 hw)

namespace ScannedCall
open CallShape (standard)
open CallSite (rewritten? rewritten?_eq_some_iff)

def rewording (before after : NameMap Value) (p : Param) : Option Text :=
  (rewritten? before after p.name).map Value.source

section
variable {kind : ActionKind} {place : Nat} {t : Text} {m n : CallMatch} {c : ScannedCall}
  {s : CallSite} {values : NameMap Value} {before new : Action} {ps : List TextEdit}

/-- The patches of a call put the literals of the new values into it. -/
theorem patched_eq_text (hm : (standard kind).match? t = some m)
    (he : m.extract? = some (values, s.params)) (htext : s.text = m.text)
    (hp : s.patches? before new = some ps)
    (hr : CallMatch.Reworded (rewording before.params new.params) m n) : s.patched ps = n.text := by
  have hranged : CallText.Ranged ⟨s.text, s.params⟩ :=
    htext ▸ (CallShape.proper_of_match? hm he).ranged
  obtain ⟨-, hmem⟩ := CallSite.mem_patches? hranged hp
  obtain ⟨qs, hqs, rfl⟩ := Option.map_eq_some_iff.1 hp
  obtain ⟨hrewritings, hsort⟩ := (CallSite.rewritings_of_patchesFor ⟨by simp, .nil⟩ hqs).mergeSort
  have hfit := hrewritings.fit hranged hsort
  obtain ⟨hfit', happly⟩ := hr.applyFrom_edits 0
  rw [← htext] at hfit' happly
  have heq := hfit.eq_of_mem_iff hfit' (fun p hp => ?_) fun e => ?_
  · rw [CallSite.patched_eq, ← happly, ← heq]
    exact hfit.foldr_apply [] rfl
  · obtain ⟨e, he, v, rfl⟩ := hrewritings.ranges p hp
    obtain ⟨x, y, z, -, hr, hy⟩ := hranged.inside e he
    simp only [hr]
    exact Nat.lt_add_of_pos_right (Text.size_pos_of_ne_nil hy)
  · rw [hmem, CallMatch.mem_edits]
    constructor
    · rintro ⟨name, w, r, hw, hr, rfl⟩
      obtain ⟨a, ha, rfl, rfl⟩ := (CallMatch.get?_ranges he (CallShape.args_nodup hm)).1 hr
      exact ⟨a, ha, w.source, by rw [rewording, hw]; rfl, rfl⟩
    · rintro ⟨a, ha, l, hl, rfl⟩
      obtain ⟨w, hw, rfl⟩ := Option.map_eq_some_iff.1 hl
      exact ⟨a.param.name, w, m.argumentRange a, hw,
        (CallMatch.get?_ranges he (CallShape.args_nodup hm)).2 ⟨a, ha, rfl, rfl⟩, rfl⟩

theorem exists_value_of_rewording {before : NameMap Value} (hw : new.Writable) {p : Param}
    (hp : p ∈ (standard new.kind).params) {l : Text} (hl : rewording before new.params p = some l) :
    ∃ w, new.params.get? p.name = some w ∧ l = w.source ∧ p.type.IsLiteral l ∧ p.type.read? l = some w := by
  obtain ⟨w, hrewritten, rfl⟩ := Option.map_eq_some_iff.1 hl
  obtain ⟨-, -, hget, -⟩ := rewritten?_eq_some_iff.1 hrewritten
  have hwritable := hw _ (NameMap.mem_of_get? hget)
  have htype := new.typed_params hp w hget
  refine ⟨w, hget, rfl, ?_, ?_⟩
  · exact htype ▸ Value.isLiteral_source hwritable
  · exact htype ▸ Value.read?_source hwritable

theorem eqv_getD_rewritten? {before : NameMap Value} (hw : new.Writable) {name : String} {v w : Value}
    (hv : before.get? name = some v) (hnew : new.params.get? name = some w) :
    ((rewritten? before new.params name).getD v).eqv w = true := by
  cases hw' : rewritten? before new.params name with
  | some w' =>
    obtain ⟨-, -, hget, -⟩ := rewritten?_eq_some_iff.1 hw'
    obtain rfl := Option.some.inj (hget.symm.trans hnew)
    exact Value.eqv_self (hw _ (NameMap.mem_of_get? hnew))
  | none =>
    refine Decidable.byContradiction fun hne => ?_
    have hrewritten : rewritten? before new.params name = some w :=
      rewritten?_eq_some_iff.2 ⟨v, hv, hnew, by simpa using hne⟩
    rw [hw'] at hrewritten
    exact absurd hrewritten (by simp)

theorem isLiteral_of_rewording {before : NameMap Value} (hw : new.Writable)
    (hm : (standard new.kind).match? t = some m) {x : Argument} (hx : x ∈ m.args) {l : Text}
    (hl : rewording before new.params x.param = some l) :
    x.param.type.IsLiteral l ∧ (x.param.type.read? l).isSome = true := by
  have hparam := (CallShape.laid_of_match? hm).params_isPrefix.subset (List.mem_map_of_mem hx)
  obtain ⟨w, -, -, hliteral, hread⟩ := exists_value_of_rewording hw hparam hl
  exact ⟨hliteral, hread ▸ rfl⟩

/-- With these literals a call tells the values that are rewritten, and its own where none is. -/
theorem exists_values_reworded {before : NameMap Value} {action : Action} {ranges : NameMap ByteRange}
    (hw : new.Writable) (hm : (standard new.kind).match? t = some m)
    (he : m.extract? = some (values, ranges)) (ha : Action.ofParams? new.kind values = some action)
    (hn : (standard new.kind).match? n.text = some n)
    (hr : CallMatch.Reworded (rewording before new.params) m n) :
    ∃ values' ranges' a, n.extract? = some (values', ranges') ∧
      Action.ofParams? new.kind values' = some a ∧ a.params = values' ∧ values'.names = values.names ∧
      ∀ name, values'.get? name = (values.get? name).map fun v =>
        (rewritten? before new.params name).getD v := by
  obtain ⟨values', ranges', a, he', ha', hparams, hnames, hget⟩ :=
    CallShape.exists_action_reworded hm he ha hn hr fun x hx l hl => (isLiteral_of_rewording hw hm hx hl).2
  refine ⟨values', ranges', a, he', ha', hparams, hnames, fun name => ?_⟩
  cases hv : values.get? name with
  | none =>
    rw [Option.map_none, NameMap.get?_eq_none_iff, hnames, ← NameMap.get?_eq_none_iff]
    exact hv
  | some v =>
    obtain ⟨x, hx, rfl, hread⟩ := (CallMatch.get?_values he (CallShape.args_nodup hm)).1 hv
    refine (hget _ _).2 ⟨x, hx, rfl, ?_⟩
    cases hw' : rewritten? before new.params x.param.name with
    | none =>
      rw [rewording, hw', Option.map_none, Option.getD_none, hread]
      rfl
    | some w =>
      have hl : rewording before new.params x.param = some w.source := by
        rw [rewording, hw', Option.map_some]
      have hparam := (CallShape.laid_of_match? hm).params_isPrefix.subset (List.mem_map_of_mem hx)
      obtain ⟨w', hnew, -, -, hread'⟩ := exists_value_of_rewording hw hparam hl
      obtain ⟨-, -, hget', -⟩ := rewritten?_eq_some_iff.1 hw'
      obtain rfl := Option.some.inj (hnew.symm.trans hget')
      rw [hl, Option.getD_some, hread']
      rfl

/-- A tidy call that is patched in place is scanned, by itself, as the new action. -/
theorem exists_scan_patched {r : Text} (hm : (standard kind).match? (m.text ++ r) = some m)
    (hc : ofMatch? kind place m = some c) (htidy : (standard kind).Tidy m)
    (hkind : c.action.kind = new.kind) (hw : new.Writable)
    (hp : c.site.patches? c.action new = some ps) :
    ∃ n values ranges a, n.text = c.site.patched ps ∧ (standard kind).match? n.text = some n ∧
      n.extract? = some (values, ranges) ∧ a.eqv new = true ∧
      scan n.text = [⟨a, ⟨0, n.text.size, n.text, ranges⟩⟩] := by
  obtain ⟨values, ranges, action, he, ha, rfl⟩ := ofMatch?_eq_some_iff.1 hc
  obtain rfl : kind = new.kind := (Action.kind_of_ofParams? ha).symm.trans hkind
  obtain ⟨hnames, -⟩ := CallSite.mem_patches? (CallShape.proper_of_match? hm he).ranged hp
  obtain ⟨n, hn, -, hr, hother⟩ :=
    htidy.exists_reworded hm fun x hx l hl => (isLiteral_of_rewording hw hm hx hl).1
  obtain ⟨values', ranges', a, he', ha', hparams, hnames', hget⟩ :=
    exists_values_reworded hw hm he ha hn hr
  have hscan := scan_eq_singleton hn (fun k hk => hother (standard k) hk)
    (ofMatch?_eq_some_iff.2 ⟨values', ranges', a, he', ha', rfl⟩)
  rw [Nat.zero_add] at hscan
  refine ⟨n, values', ranges', a, (patched_eq_text hm he rfl hp hr).symm, hn, he', ?_, hscan⟩
  have hvalues := CallShape.params_eq_values hm he ha
  refine Action.eqv_of_get? (Action.kind_of_ofParams? ha') (by rw [hparams, hnames', ← hvalues, hnames]) ?_
  intro name v w hv hnew
  rw [hparams, hget, Option.map_eq_some_iff, ← hvalues] at hv
  obtain ⟨old, hold, rfl⟩ := hv
  exact eqv_getD_rewritten? hw hold hnew

end

/-- No block comment stands before the function name of the call, and behind it none is read past its
first closing mark. -/
def TidyIn (c : ScannedCall) (t : Text) : Prop :=
  ∃ lead rest m, t = lead ++ rest ∧ lead.size = c.site.start ∧
    (standard c.action.kind).match? rest = some m ∧ (standard c.action.kind).Tidy m

end ScannedCall

namespace CallSite

/-- The call by itself is scanned as one action, from its first byte to its last. -/
def ScannedAs (s : CallSite) (a : Action) : Prop :=
  scan s.text = [⟨a, ⟨0, s.text.size, s.text, s.params⟩⟩]

/-- The call is kept, and exactly the literals of the parameters whose values differ are rewritten. -/
structure KeptBy (s : CallSite) (before after : Action) (edits : List TextEdit) : Prop where
  kind_eq : before.kind = after.kind
  names_eq : before.params.names = after.params.names
  edits : ∀ e, e ∈ edits ↔ ∃ name v w range, before.params.get? name = some v ∧
    after.params.get? name = some w ∧ v.eqv w = false ∧ s.paramRange? name = some range ∧
    e = ⟨range, w.source⟩

theorem mem_shift_iff {s : CallSite} {before after : NameMap Value} {ps : List TextEdit}
    (h : ∀ e, e ∈ ps ↔ ∃ name, s.Rewrites before after name e) (e : TextEdit) :
    e ∈ ps.map (TextEdit.shift s.start) ↔ ∃ name v w range, before.get? name = some v ∧
      after.get? name = some w ∧ v.eqv w = false ∧ s.paramRange? name = some range ∧
      e = ⟨range, w.source⟩ := by
  rw [List.mem_map]
  constructor
  · rintro ⟨p, hp, rfl⟩
    obtain ⟨name, w, r, hw, hr, rfl⟩ := (h p).1 hp
    obtain ⟨v, hv, hget, hne⟩ := rewritten?_eq_some_iff.1 hw
    exact ⟨name, v, w, _, hv, hget, hne, by rw [paramRange?, hr]; rfl, rfl⟩
  · rintro ⟨name, v, w, range, hv, hget, hne, hrange, rfl⟩
    obtain ⟨r, hr, rfl⟩ := Option.map_eq_some_iff.1 hrange
    exact ⟨⟨r, w.source⟩, (h _).2 ⟨name, w, r, rewritten?_eq_some_iff.2 ⟨v, hv, hget, hne⟩, hr, rfl⟩, rfl⟩

end CallSite

/-- A call that is written anew is scanned as what is written. -/
theorem Action.scannedAs_filled {a : Action} (ha : a.Writable) (s : CallSite) :
    (s.rewritten a.written).ScannedAs a.filled := by
  have hm := match?_found ha []
  have hother := fun k (hk : k ≠ a.kind) => match?_found_of_ne hk []
  have hcall := ofMatch?_found ha 0
  rw [List.append_nil] at hm
  rw [Nat.zero_add] at hcall
  simp only [List.append_nil] at hother
  exact (congrArg scan a.text_written).trans (scan_eq_singleton hm hother hcall)

open ScannedCall in
/-- Every call of a text is patched for every action that can be written. Edits inside the call, in
their order, make of it the call that is told. It is kept, with other literals for the parameters
whose values differ, or written anew; what is written anew is scanned as the new action, and so is
what is kept of a call whose comments end at their first marks. -/
theorem exists_patchTo_of_mem_scan {t : Text} {c : ScannedCall} (hc : c ∈ scan t) {new : Action}
    (hw : new.Writable) :
    ∃ edits site, c.site.patchTo c.action new = .ok (edits, site) ∧
      (edits.Pairwise fun e f => e.range.stop ≤ f.range.start) ∧
      (∀ e ∈ edits, c.site.start ≤ e.range.start ∧ e.range.start < e.range.stop ∧
        e.range.stop ≤ c.site.stop) ∧
      TextEdit.applyFrom c.site.start edits c.site.text = site.text ∧
      (c.site.KeptBy c.action new edits ∧
          (c.TidyIn t → ∃ a : Action, a.eqv new = true ∧ site.ScannedAs a) ∨
        edits = [⟨c.site.range, new.written.text⟩] ∧ site.ScannedAs new.filled) := by
  have hfound := foundIn_of_mem_scan hc
  obtain ⟨-, hstop, hproper⟩ := hfound.standsAt
  obtain ⟨⟨edits, site⟩, hpatch⟩ := CallSite.exists_patchTo_iff.2 hw
  have hto := CallSite.patchesTo_of_patchTo hproper hstop hpatch
  refine ⟨edits, site, hpatch, hto.fit.pairwise, fun e he => hstop ▸ hto.inside e he, hto.text_eq, ?_⟩
  obtain ⟨ps, found, values, ranges, hkind, hps, hmatch, hex, rfl, rfl⟩ | ⟨call, hcall, rfl, rfl⟩ :=
    CallSite.kept_or_anew hpatch
  · obtain ⟨hnames, hmem⟩ := CallSite.mem_patches? hproper.ranged hps
    refine .inl ⟨⟨hkind, hnames, CallSite.mem_shift_iff hmem⟩, ?_⟩
    rintro ⟨lead, rest, m, rfl, hsize, hm, htidy⟩
    obtain ⟨kind, lead', rest', m', ht, hm', hof, -⟩ := hfound
    obtain rfl := kind_of_ofMatch? hof
    obtain ⟨rfl, rfl⟩ := Text.append_inj_of_size ht (hsize.trans (site_of_ofMatch? hof).1)
    obtain rfl := Option.some.inj (hm.symm.trans hm')
    obtain ⟨x, rfl⟩ := CallShape.prefix_of_match? hm
    obtain ⟨n, values', ranges', a, htext, hn, hex', heqv, hscan⟩ :=
      exists_scan_patched hm hof htidy hkind hw hps
    rw [← htext, ← hkind] at hmatch
    obtain rfl := Option.some.inj (hn.symm.trans hmatch)
    obtain ⟨rfl, rfl⟩ := Prod.mk.inj (Option.some.inj (hex'.symm.trans hex))
    refine ⟨a, heqv, ?_⟩
    rw [htext] at hscan
    exact hscan
  · obtain ⟨-, rfl⟩ := Action.generate_eq_ok_iff.1 hcall
    exact .inr ⟨rfl, Action.scannedAs_filled hw c.site⟩

/-- A call with a comment before its argument. -/
def commentedText : Text := "auton::wait(// ms\n 5);".toList

def commentedCall : ScannedCall :=
  ⟨.wait 5, ⟨0, 22, commentedText, [("milliseconds", ⟨19, 20⟩)]⟩⟩

theorem scan_commented : scan commentedText = [commentedCall] :=
  @scan_eq_of_extract .wait commentedText [("milliseconds", .int 5)] [("milliseconds", ⟨19, 20⟩)]
    (.wait 5) (by decide +kernel) (by decide +kernel) rfl

theorem tidyIn_commented : commentedCall.TidyIn commentedText := by
  have hmatch : ((CallShape.standard .wait).match? commentedText).map (·.text) = some commentedText := by
    decide +kernel
  obtain ⟨m, hm, htext⟩ := Option.map_eq_some_iff.1 hmatch
  exact ⟨[], commentedText, m, rfl, rfl, hm, CallShape.tidy_of_match? hm (htext ▸ by decide +kernel)⟩

theorem exists_patchTo_of_mem_scan_commented : commentedCall ∈ scan commentedText ∧
    (Action.wait 7).Writable ∧ commentedCall.TidyIn commentedText ∧
    ∃ edits site a, commentedCall.site.patchTo (.wait 5) (.wait 7) = .ok (edits, site) ∧
      a.eqv (.wait 7) = true ∧ site.ScannedAs a := by
  have hmem : commentedCall ∈ scan commentedText := scan_commented ▸ List.mem_singleton_self _
  have hw : (Action.wait 7).Writable := by unfold Action.Writable; decide +kernel
  obtain ⟨edits, site, hpatch, -, -, -, hread⟩ := exists_patchTo_of_mem_scan hmem hw
  refine ⟨hmem, hw, tidyIn_commented, edits, site, ?_⟩
  rcases hread with ⟨-, hread⟩ | ⟨-, hread⟩
  · obtain ⟨a, heqv, hread⟩ := hread tidyIn_commented
    exact ⟨a, hpatch, heqv, hread⟩
  · exact ⟨(Action.wait 7).filled, hpatch, by decide +kernel, hread⟩

/-- A call in which what is read as one comment ends behind a second one, up to a literal. -/
def misreadText (x : String) : Text := ("auton::moveTo(/* a */ 1, 2, /* b */ " ++ x ++ ", 2, 1);").toList

def misreadCall : ScannedCall :=
  ⟨.moveTo (.ofDecimal false 15 (-1)) (.ofInt 2) 1 none none,
    ⟨0, 47, misreadText "1.5", [("timeout", ⟨44, 45⟩), ("x", ⟨36, 39⟩), ("y", ⟨41, 42⟩)]⟩⟩

/-- With an integer as its literal both comments end at their first marks, which makes another call. -/
def misreadPatched : ScannedCall :=
  ⟨.moveTo (.ofInt 1) (.ofInt 2) 7 (some (.ofInt 2)) (some true),
    ⟨0, 45, misreadText "7", [("log", ⟨42, 43⟩), ("maxSpeed", ⟨39, 40⟩), ("timeout", ⟨36, 37⟩),
      ("x", ⟨22, 23⟩), ("y", ⟨25, 26⟩)]⟩⟩

theorem scan_misread : scan (misreadText "1.5") = [misreadCall] ∧
    scan (misreadText "7") = [misreadPatched] := by
  constructor
  · exact @scan_eq_of_extract .moveTo _ misreadCall.action.params misreadCall.site.params
      misreadCall.action (by decide +kernel) (by decide +kernel) (by decide +kernel)
  · exact @scan_eq_of_extract .moveTo _ misreadPatched.action.params misreadPatched.site.params
      misreadPatched.action (by decide +kernel) (by decide +kernel) (by decide +kernel)

theorem patchTo_misread : misreadCall.site.patchTo misreadCall.action
      (.moveTo (.ofInt 7) (.ofInt 2) 1 none none)
    = .ok ([⟨⟨36, 39⟩, "7".toList⟩], misreadPatched.site) := by
  let new : Action := .moveTo (.ofInt 7) (.ofInt 2) 1 none none
  have hfor : misreadCall.site.patchesFor misreadCall.action.params new.params
      (misreadCall.action.params.names ++ new.params.names) [] = some [⟨⟨36, 39⟩, "7".toList⟩] := by
    decide +kernel
  have hp : misreadCall.site.patches? misreadCall.action new = some [⟨⟨36, 39⟩, "7".toList⟩] := by
    rw [CallSite.patches?, hfor, Option.map_some, List.mergeSort_singleton]
  have hm : ((CallShape.standard new.kind).match?
      (misreadCall.site.patched [⟨⟨36, 39⟩, "7".toList⟩])).bind (·.extract?)
      = some (misreadPatched.action.params, misreadPatched.site.params) := by decide +kernel
  obtain ⟨found, hm, hex⟩ := Option.bind_eq_some_iff.1 hm
  have hkind : misreadCall.action.kind = new.kind := by decide
  have hw : new.checkWritable = .ok () := by decide +kernel
  exact (CallSite.patchTo_of_match hw hkind hp hm hex).trans (by decide +kernel)

/-- A call that is patched in place can be read as another action. -/
theorem patchTo_reads_other :
    ¬∀ (t : Text) (c : ScannedCall) (new : Action), c ∈ scan t → new.Writable →
      ∃ edits site a, c.site.patchTo c.action new = .ok (edits, site) ∧
        (a.eqv new = true ∨ a = new.filled) ∧ site.ScannedAs a := by
  intro h
  have hmem : misreadCall ∈ scan (misreadText "1.5") := scan_misread.1 ▸ List.mem_singleton_self _
  obtain ⟨edits, site, a, hpatch, ha, hread⟩ := h _ misreadCall
    (.moveTo (.ofInt 7) (.ofInt 2) 1 none none) hmem (by unfold Action.Writable; decide +kernel)
  obtain ⟨-, rfl⟩ := Prod.mk.inj (Except.ok.inj (patchTo_misread.symm.trans hpatch))
  have hscan : [misreadPatched] = [_] := scan_misread.2.symm.trans hread
  obtain rfl := congrArg ScannedCall.action (List.singleton_inj.1 hscan)
  exact absurd ha (by decide +kernel)

end RoutineSync
